import OptionX.Records.TradeRecordStatusFixer

/-!
# Which trades are taken for stale

The greatest close date of a terminal trade, and what the correction does to one record.
-/

namespace OptionX.Records

variable {F : Type}

/-- The close time that a record knows of: `close_date`, or else `open_date` and the duration. -/
def TradeRecord.plannedClose? (r : TradeRecord F) : Option Int :=
  if r.closeDate ≠ 0 then some r.closeDate
  else if r.openDate ≠ 0 ∧ r.duration ≠ 0 then some (r.openDate + r.duration.toNat * 1000)
  else none

/-- A close time lies more than the waiting time before the greatest close date of a terminal record. -/
def Overdue (waitStatusMs : Int) (records : List (TradeRecord F)) (planned : Int) : Prop :=
  ∃ t ∈ records, isTerminalTradeState t.tradeState = true ∧
    (∀ t' ∈ records, isTerminalTradeState t'.tradeState = true → t'.closeDate ≤ t.closeDate) ∧
    planned < t.closeDate - waitStatusMs

def TradeRecord.withCheckError (r : TradeRecord F) : TradeRecord F := { r with tradeState := .checkError }

@[simp] theorem TradeRecord.withCheckError_tradeState (r : TradeRecord F) :
    r.withCheckError.tradeState = .checkError := rfl

@[simp] theorem TradeRecord.withCheckError_closeDate (r : TradeRecord F) :
    r.withCheckError.closeDate = r.closeDate := rfl

theorem plannedClose?_nonneg {r : TradeRecord F} {planned : Int} (hopen : 0 ≤ r.openDate) (hclose : 0 ≤ r.closeDate)
    (h : r.plannedClose? = some planned) : 0 ≤ planned := by
  unfold TradeRecord.plannedClose? at h
  split at h
  · exact Option.some.inj h ▸ hclose
  · split at h
    · obtain rfl := Option.some.inj h
      omega
    · cases h

namespace TradeRecordStatusFixer

variable {records : List (TradeRecord F)} {waitStatusMs staleBorder : Int} {r : TradeRecord F}

theorem isTerminalTradeState_of_isPending {state : TradeExecution.TradeState} (h : isPending state = true) :
    isTerminalTradeState state = false := by
  cases state <;> first | rfl | cases h

/-! ## The border -/

/-- The greatest close date of a terminal record, or `m` where that is greater. -/
theorem foldl_closeDate (records : List (TradeRecord F)) (m : Int) :
    let n := records.foldl (fun maxCloseDate rec =>
      if isTerminalTradeState rec.tradeState = true ∧ maxCloseDate < rec.closeDate then rec.closeDate
      else maxCloseDate) m
    m ≤ n ∧ (∀ t ∈ records, isTerminalTradeState t.tradeState = true → t.closeDate ≤ n) ∧
      (n = m ∨ ∃ t ∈ records, isTerminalTradeState t.tradeState = true ∧ t.closeDate = n) := by
  induction records generalizing m with
  | nil => simp
  | cons r rs ih =>
      rw [List.foldl_cons]
      split
      · next h =>
        obtain ⟨hle, hall, hmem⟩ := ih r.closeDate
        refine ⟨by omega, ?_, .inr ?_⟩
        · intro t ht hterm
          rcases List.mem_cons.mp ht with rfl | ht
          · exact hle
          · exact hall t ht hterm
        · rcases hmem with heq | ⟨t, ht, hterm, heq⟩
          · exact ⟨r, by simp, h.1, heq.symm⟩
          · exact ⟨t, by simp [ht], hterm, heq⟩
      · next h =>
        obtain ⟨hle, hall, hmem⟩ := ih m
        refine ⟨hle, ?_, hmem.imp id ?_⟩
        · intro t ht hterm
          rcases List.mem_cons.mp ht with rfl | ht
          · have : ¬ m < t.closeDate := fun hlt => h ⟨hterm, hlt⟩
            omega
          · exact hall t ht hterm
        · rintro ⟨t, ht, hterm, heq⟩
          exact ⟨t, by simp [ht], hterm, heq⟩

theorem maxCloseDate_nonneg (records : List (TradeRecord F)) : 0 ≤ maxCloseDate records := (foldl_closeDate records 0).1

theorem le_maxCloseDate (hr : r ∈ records) (hterm : isTerminalTradeState r.tradeState = true) :
    r.closeDate ≤ maxCloseDate records :=
  (foldl_closeDate records 0).2.1 r hr hterm

theorem maxCloseDate_mem (h : maxCloseDate records ≠ 0) :
    ∃ t ∈ records, isTerminalTradeState t.tradeState = true ∧ t.closeDate = maxCloseDate records :=
  (foldl_closeDate records 0).2.2.resolve_left h

/-- A close time from 0 on is overdue exactly when it lies before the border. -/
theorem overdue_iff {planned : Int} (hplanned : 0 ≤ planned) (hwait : 0 ≤ waitStatusMs) :
    Overdue waitStatusMs records planned ↔ planned < maxCloseDate records - waitStatusMs := by
  constructor
  · rintro ⟨t, ht, hterm, -, hlt⟩
    have := le_maxCloseDate ht hterm
    omega
  · intro hlt
    have hborder : maxCloseDate records ≠ 0 := by omega
    obtain ⟨t, ht, hterm, heq⟩ := maxCloseDate_mem hborder
    exact ⟨t, ht, hterm, fun t' ht' hterm' => heq ▸ le_maxCloseDate ht' hterm', by omega⟩

/-! ## One record -/

theorem shouldCheckError_iff : shouldCheckError staleBorder r = true ↔
    0 < r.closeDate ∧ r.closeDate < staleBorder ∨
      0 < r.openDate ∧ 0 < r.duration ∧ r.openDate + (r.duration * 1000).toNat < staleBorder := by
  unfold shouldCheckError
  split
  · next h => exact iff_of_true rfl (.inl h)
  · next h =>
    split
    · next h' => exact iff_of_true rfl (.inr h')
    · next h' => exact iff_of_false (by simp) fun hor => hor.elim h h'

/-- The correction marks the pending trades that it takes for stale, and leaves all others. -/
theorem fixRecord_eq : fixRecord staleBorder r =
    if isPending r.tradeState = true ∧ shouldCheckError staleBorder r = true then r.withCheckError else r := by
  unfold fixRecord
  cases hs : r.tradeState <;> simp [isTerminalTradeState, isPending, TradeRecord.withCheckError]

/-- The correction as one pass over the records; nothing lies before a border that is not positive. -/
theorem fixStaleStatuses_eq (waitStatusMs : Int) (records : List (TradeRecord F)) (hwait : 0 ≤ waitStatusMs) :
    fixStaleStatuses waitStatusMs records = records.map (fixRecord (maxCloseDate records - waitStatusMs)) := by
  have hnone : ∀ border : Int, border ≤ 0 → records = records.map (fixRecord border) := by
    intro border hborder
    refine (List.map_id _).symm.trans (List.map_congr_left fun r _ => ?_)
    rw [fixRecord_eq, if_neg]
    · rfl
    · rintro ⟨-, hstale⟩
      rcases shouldCheckError_iff.mp hstale with ⟨h, h'⟩ | ⟨h, -, h'⟩ <;> omega
  unfold fixStaleStatuses
  split
  · next hempty =>
    rw [List.isEmpty_iff.mp hempty]
    rfl
  · dsimp only
    split
    · next h0 => exact hnone _ (by omega)
    · split
      · next hle => exact hnone _ hle
      · rfl

/-- The close date is known and not before the border, but the duration has run out. -/
def FallsThrough (staleBorder : Int) (r : TradeRecord F) : Prop :=
  isPending r.tradeState = true ∧ staleBorder ≤ r.closeDate ∧ 0 < r.closeDate ∧ shouldCheckError staleBorder r = true

/-- The duration in milliseconds decides, and does not fit its 32 bits. -/
def Wraps (r : TradeRecord F) : Prop :=
  isPending r.tradeState = true ∧ r.closeDate = 0 ∧ 0 < r.openDate ∧ 2 ^ 32 ≤ r.duration.toNat * 1000

theorem toNat_duration (h : r.duration.toNat * 1000 < 2 ^ 32) : (r.duration * 1000).toNat = r.duration.toNat * 1000 := by
  rw [UInt32.toNat_mul]
  exact Nat.mod_eq_of_lt h

theorem shouldCheckError_exact (hopen : 0 ≤ r.openDate) (hclose : 0 ≤ r.closeDate) (hpending : isPending r.tradeState = true)
    (hfalls : ¬ FallsThrough staleBorder r) (hwraps : ¬ Wraps r) :
    shouldCheckError staleBorder r = true ↔ ∃ planned, r.plannedClose? = some planned ∧ planned < staleBorder := by
  have hdur : 0 < r.duration ↔ r.duration ≠ 0 := by
    rw [UInt32.lt_iff_toNat_lt, ne_eq, ← UInt32.toNat_inj]
    simp
    omega
  unfold TradeRecord.plannedClose?
  split
  · next hset =>
    constructor
    · intro hstale
      refine ⟨_, rfl, ?_⟩
      by_contra hnot
      exact hfalls ⟨hpending, by omega, by omega, hstale⟩
    · rintro ⟨planned, hplanned, hlt⟩
      obtain rfl := Option.some.inj hplanned
      exact shouldCheckError_iff.mpr (.inl ⟨by omega, hlt⟩)
  · next hunset =>
    rw [not_not] at hunset
    rw [shouldCheckError_iff, hdur]
    split
    · next hknown =>
      have hfit : r.duration.toNat * 1000 < 2 ^ 32 := by
        by_contra hnot
        exact hwraps ⟨hpending, hunset, by omega, by omega⟩
      rw [toNat_duration hfit]
      constructor
      · rintro (⟨h, -⟩ | ⟨-, -, h⟩)
        · omega
        · exact ⟨_, rfl, by simpa using h⟩
      · rintro ⟨planned, hplanned, hlt⟩
        obtain rfl := Option.some.inj hplanned
        exact .inr ⟨by omega, hknown.2, by simpa using hlt⟩
    · next hunknown =>
      constructor
      · rintro (⟨h, -⟩ | ⟨h, h', -⟩)
        · omega
        · exact absurd ⟨by omega, h'⟩ hunknown
      · rintro ⟨planned, hplanned, -⟩
        cases hplanned

/-! ## Twice -/

@[simp] theorem fixRecord_closeDate : (fixRecord staleBorder r).closeDate = r.closeDate := by
  rw [fixRecord_eq]
  split <;> rfl

/-- A corrected record stays as it is, whatever the border. -/
theorem fixRecord_fixRecord (staleBorder' : Int) (h : shouldCheckError staleBorder r = true) :
    fixRecord staleBorder' (fixRecord staleBorder r) =
      if isPending r.tradeState = true then r.withCheckError else r := by
  by_cases hp : isPending r.tradeState = true
  · have hmarked : fixRecord staleBorder r = r.withCheckError := by rw [fixRecord_eq, if_pos ⟨hp, h⟩]
    have hdone : isPending r.withCheckError.tradeState = false := rfl
    rw [hmarked, fixRecord_eq, if_pos hp, hdone]
    simp
  · have hkept : ∀ border, fixRecord border r = r := fun border => by
      rw [fixRecord_eq, if_neg fun hmarked => hp hmarked.1]
    rw [hkept, hkept, if_neg hp]

/-- The border does not move where no record falls through: a corrected record closes before it. -/
theorem maxCloseDate_map (hwait : 0 ≤ waitStatusMs)
    (h : ∀ r ∈ records, ¬ FallsThrough (maxCloseDate records - waitStatusMs) r) :
    maxCloseDate (records.map (fixRecord (maxCloseDate records - waitStatusMs))) = maxCloseDate records := by
  apply le_antisymm
  · by_cases h0 : maxCloseDate (records.map (fixRecord (maxCloseDate records - waitStatusMs))) = 0
    · rw [h0]
      exact maxCloseDate_nonneg _
    · obtain ⟨t, ht, hterm, heq⟩ := maxCloseDate_mem h0
      obtain ⟨r, hr, rfl⟩ := List.mem_map.mp ht
      rw [← heq, fixRecord_closeDate]
      rw [fixRecord_eq] at hterm
      split at hterm
      · next hmarked =>
        by_contra hnot
        have := maxCloseDate_nonneg records
        exact h r hr ⟨hmarked.1, by omega, by omega, hmarked.2⟩
      · exact le_maxCloseDate hr hterm
  · by_cases h0 : maxCloseDate records = 0
    · rw [h0]
      exact maxCloseDate_nonneg _
    · obtain ⟨t, ht, hterm, heq⟩ := maxCloseDate_mem h0
      have hkept : fixRecord (maxCloseDate records - waitStatusMs) t = t := by
        rw [fixRecord_eq, if_neg]
        intro hmarked
        rw [isTerminalTradeState_of_isPending hmarked.1] at hterm
        cases hterm
      exact heq.symm.le.trans (le_maxCloseDate (List.mem_map.mpr ⟨t, ht, hkept⟩) hterm)

theorem fixStaleStatuses_idem (hwait : 0 ≤ waitStatusMs)
    (h : ∀ r ∈ records, ¬ FallsThrough (maxCloseDate records - waitStatusMs) r) :
    fixStaleStatuses waitStatusMs (fixStaleStatuses waitStatusMs records) = fixStaleStatuses waitStatusMs records := by
  rw [fixStaleStatuses_eq _ _ hwait, fixStaleStatuses_eq _ _ hwait, maxCloseDate_map hwait h, List.map_map]
  refine List.map_congr_left fun r _ => ?_
  by_cases hstale : shouldCheckError (maxCloseDate records - waitStatusMs) r = true
  · rw [Function.comp_apply, fixRecord_fixRecord _ hstale, fixRecord_eq]
    simp [hstale]
  · have hkept : fixRecord (maxCloseDate records - waitStatusMs) r = r := by
      rw [fixRecord_eq, if_neg fun hmarked => hstale hmarked.2]
    rw [Function.comp_apply, hkept, hkept]

end TradeRecordStatusFixer

end OptionX.Records
