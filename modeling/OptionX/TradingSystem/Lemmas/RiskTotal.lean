import OptionX.Lib.Run
import OptionX.TradingSystem.Lemmas.RiskStep

/-!
# The reserved risk is an exact sum

The invariant that keeps the loop of `active_risk_units` away from its saturating branch: every stored risk
is positive, in the currency of the snapshot, and the sum of the active ones fits a signed word.
-/

namespace OptionX.TradingSystem

open Lib (OrderedMap)

/-- The risk that a reservation keeps. -/
def RiskReservation.risk (r : RiskReservation) : Int :=
  if r.state.active then r.potentialRisk.units.toInt else 0

theorem RiskReservation.risk_nonneg {r : RiskReservation} (h : 0 ≤ r.potentialRisk.units.toInt) :
    0 ≤ r.risk := by
  unfold risk
  split <;> omega

namespace RiskAdmission

/-- The mathematical sum of the risks of the active reservations. -/
def exactRisk (s : RiskAdmission) : Int := s.byKey.sumOf RiskReservation.risk

/-- No addition of the loop over the reservations saturates. -/
def AddsUp (total : Int64) : List RiskReservation → Prop
  | [] => True
  | r :: rest =>
      if r.state == .released || r.state == .settled then AddsUp total rest
      else canAdd total r.potentialRisk.units = true ∧ AddsUp (total + r.potentialRisk.units) rest

/-! ## The loop -/

theorem canAdd_iff {a b : Int64} :
    canAdd a b = true ↔ 0 ≤ b.toInt ∧ a.toInt + b.toInt ≤ 2 ^ 63 - 1 := by
  have hmax : Int64.maxValue.toInt = 2 ^ 63 - 1 := rfl
  have hzero : (0 : Int64).toInt = 0 := rfl
  have hb := b.toInt_lt
  simp only [canAdd, Bool.and_eq_true, decide_eq_true_eq, Int64.le_iff_toInt_le, hzero]
  refine and_congr_right (fun h => ?_)
  rw [Lib.int64_sub (by omega) (by omega), hmax]
  omega

theorem ended_eq (st : RiskReservationState) :
    (st == .released || st == .settled) = !st.active := by
  cases st <;> rfl

/-- While the exact sum fits a signed word the loop computes it and never saturates. -/
theorem activeRisk_exact {rs : List RiskReservation} (total : Int64)
    (hpos : ∀ r ∈ rs, 0 ≤ r.potentialRisk.units.toInt) (h0 : 0 ≤ total.toInt)
    (hb : total.toInt + (rs.map RiskReservation.risk).sum ≤ 2 ^ 63 - 1) :
    (activeRisk total rs).toInt = total.toInt + (rs.map RiskReservation.risk).sum ∧
      AddsUp total rs := by
  induction rs generalizing total with
  | nil => simp [activeRisk, AddsUp]
  | cons r rs ih =>
      have hr := hpos r (by simp)
      have hpos' : ∀ r ∈ rs, 0 ≤ r.potentialRisk.units.toInt := fun x hx => hpos x (by simp [hx])
      have hrest : 0 ≤ (rs.map RiskReservation.risk).sum :=
        List.sum_nonneg (fun x hx => by
          obtain ⟨y, hy, rfl⟩ := List.mem_map.mp hx
          exact RiskReservation.risk_nonneg (hpos' y hy))
      simp only [List.map_cons, List.sum_cons] at hb ⊢
      simp only [activeRisk, AddsUp, ended_eq]
      cases ha : r.state.active with
      | false =>
          have hz : r.risk = 0 := by simp [RiskReservation.risk, ha]
          simp only [Bool.not_false, if_true, hz, zero_add]
          exact ih total hpos' h0 (by omega)
      | true =>
          have hu : r.risk = r.potentialRisk.units.toInt := by simp [RiskReservation.risk, ha]
          have hc : canAdd total r.potentialRisk.units = true := canAdd_iff.mpr ⟨hr, by omega⟩
          have hadd : (total + r.potentialRisk.units).toInt =
              total.toInt + r.potentialRisk.units.toInt := Lib.int64_add (by omega) (by omega)
          obtain ⟨he, hs⟩ := ih (total + r.potentialRisk.units) hpos' (by omega) (by omega)
          simp only [Bool.not_true, Bool.false_eq_true, if_false, hc, if_true, true_and]
          exact ⟨by omega, hs⟩

/-! ## The invariant -/

/-- Every stored risk is positive and in the snapshot's currency, and the active ones sum up to at most
the largest signed word and the configured limit. -/
structure Funded (s : RiskAdmission) : Prop where
  positive : ∀ {k r}, s.byKey.find? k = some r → 0 < r.potentialRisk.units.toInt
  currency : ∀ {k r}, s.byKey.find? k = some r → ∃ snapshot, s.snapshot = some snapshot ∧
    sameCurrency snapshot.availableBalance r.potentialRisk = true ∧
    sameCurrency r.stake r.potentialRisk = true
  bound : s.exactRisk ≤ 2 ^ 63 - 1
  limit : ∀ m, s.config.maxReservedRisk = some m → s.exactRisk ≤ m.units.toInt

variable {s s' : RiskAdmission} {c : Call}

theorem Funded.create {config : RiskAdmissionConfig} (hc : config.valid = true) (first : UInt64) :
    Funded (create config first) where
  positive := fun h => by cases h
  currency := fun h => by cases h
  bound := by simp [exactRisk, RiskAdmission.create]
  limit := by
    intro m hm
    have hm' : config.maxReservedRisk = some m := hm
    simp only [RiskAdmissionConfig.valid, hm', Option.all_some, Bool.and_eq_true, decide_eq_true_eq,
      Int64.lt_iff_toInt_lt, Int64.toInt_zero] at hc
    simp only [exactRisk, RiskAdmission.create, OrderedMap.sumOf_empty]
    omega

theorem Funded.units (h : Funded s) :
    s.activeRiskUnits.toInt = s.exactRisk ∧ AddsUp 0 s.byKey.values := by
  have hpos : ∀ r ∈ s.byKey.values, 0 ≤ r.potentialRisk.units.toInt := by
    intro r hr
    obtain ⟨k, hk⟩ := OrderedMap.mem_values.mp hr
    exact (h.positive hk).le
  have hb := h.bound
  simp only [exactRisk, OrderedMap.sumOf] at hb
  obtain ⟨he, hs⟩ := activeRisk_exact 0 hpos (by simp) (by simpa using hb)
  rw [Int64.toInt_zero, zero_add] at he
  exact ⟨he, hs⟩

/-- The sum that an admission leaves behind. -/
theorem Admissible.exactRisk {request nowMs snapshot} (h : s.Admissible request nowMs snapshot) :
    (s.addReservation (s.reservationFor request snapshot)).exactRisk =
      s.exactRisk + request.potentialRisk.units.toInt := by
  have hr : (s.reservationFor request snapshot).risk = request.potentialRisk.units.toInt := rfl
  have := OrderedMap.sumOf_emplace (m := s.byKey) h.newKey (s.reservationFor request snapshot)
    RiskReservation.risk
  rw [hr] at this
  rw [Int.add_comm]
  exact this

/-- The sum that `reserve` compares with the balance and the limit is exact. -/
theorem Funded.next (hf : Funded s) {request nowMs snapshot}
    (h : s.Admissible request nowMs snapshot) :
    (s.activeRiskUnits + request.potentialRisk.units).toInt =
        s.exactRisk + request.potentialRisk.units.toInt ∧
      s.exactRisk + request.potentialRisk.units.toInt ≤ 2 ^ 63 - 1 := by
  obtain ⟨hpos, hsum⟩ := canAdd_iff.mp h.room
  have hu := hf.units.1
  have hl := s.activeRiskUnits.le_toInt
  exact ⟨by rw [Lib.int64_add (by omega) (by omega), hu], by omega⟩

theorem find?_addReservation {request nowMs snapshot} (h : s.Admissible request nowMs snapshot) (k : String) :
    (s.addReservation (s.reservationFor request snapshot)).byKey.find? k =
      if k = request.idempotencyKey then some (s.reservationFor request snapshot)
      else s.byKey.find? k :=
  OrderedMap.find?_emplace h.newKey _ k

theorem find?_moved {stored : RiskReservation} {target : RiskReservationState}
    (h : s.byKey.find? stored.idempotencyKey = some stored) (k : String) :
    (s.moved stored target).byKey.find? k =
      if k = stored.idempotencyKey then some { stored with state := target } else s.byKey.find? k :=
  OrderedMap.find?_set h _ k

/-- The record that a token found is stored under its own key. -/
theorem found_key {token stored : RiskReservation}
    (hf : s.byKey.find? token.idempotencyKey = some stored) (hm : matchesToken stored token = true) :
    s.byKey.find? stored.idempotencyKey = some stored := by
  rw [matchesToken_eq hm] at hf
  exact hf

/-- A move never adds risk. -/
theorem exactRisk_moved {stored : RiskReservation} (target : RiskReservationState)
    (hf : s.byKey.find? stored.idempotencyKey = some stored)
    (hpos : 0 < stored.potentialRisk.units.toInt) (ha : stored.state.active = true) :
    (s.moved stored target).exactRisk ≤ s.exactRisk := by
  have hset := OrderedMap.sumOf_set hf { stored with state := target } RiskReservation.risk
  have hold : stored.risk = stored.potentialRisk.units.toInt := by simp [RiskReservation.risk, ha]
  have hnew : ({ stored with state := target } : RiskReservation).risk ≤ stored.risk := by
    rw [hold]
    simp only [RiskReservation.risk]
    split <;> omega
  have : (s.moved stored target).exactRisk + stored.risk =
      s.exactRisk + ({ stored with state := target } : RiskReservation).risk := hset
  omega

/-- Every effect keeps the invariant. -/
theorem Effect.funded {result : RiskAdmissionResult} (hf : Funded s) (he : Effect s c s' result) :
    Funded s' := by
  cases he with
  | snapshot valid currency =>
      rename_i snapshot
      refine ⟨hf.positive, fun hk => ?_, hf.bound, hf.limit⟩
      obtain ⟨stored, hs, hcur, hst⟩ := hf.currency hk
      obtain ⟨h1, h2⟩ := sameCurrency_iff.mp hcur
      obtain ⟨h3, h4⟩ := sameCurrency_iff.mp (currency stored hs)
      exact ⟨snapshot, rfl, sameCurrency_iff.mpr ⟨h3.symm.trans h1, h4.symm.trans h2⟩, hst⟩
  | reserve h =>
      rename_i request nowMs snapshot
      obtain ⟨hnext, hmax⟩ := hf.next h
      refine ⟨fun hk => ?_, fun hk => ?_, ?_, fun m hm => ?_⟩
      · rw [find?_addReservation h] at hk
        split at hk
        · obtain rfl := Option.some.inj hk
          have := h.positive
          rwa [Int64.lt_iff_toInt_lt, Int64.toInt_zero] at this
        · exact hf.positive hk
      · rw [find?_addReservation h] at hk
        split at hk
        · obtain rfl := Option.some.inj hk
          exact ⟨snapshot, h.stored, h.currency, h.sameStake⟩
        · exact hf.currency hk
      · rw [h.exactRisk]
        exact hmax
      · have := h.limit m hm
        rw [Int64.le_iff_toInt_le, hnext] at this
        rw [h.exactRisk]
        exact this
  | move call_move found token_eq allowed evidence =>
      rename_i token target stored reason
      have hkey := found_key found token_eq
      have hle := exactRisk_moved target hkey (hf.positive hkey) allowed.active
      refine ⟨fun hk => ?_, fun hk => ?_, ?_, fun m hm => ?_⟩
      · rw [find?_moved hkey] at hk
        split at hk
        · obtain rfl := Option.some.inj hk
          exact hf.positive (r := stored) hkey
        · exact hf.positive hk
      · rw [find?_moved hkey] at hk
        split at hk
        · obtain rfl := Option.some.inj hk
          exact hf.currency (r := stored) hkey
        · exact hf.currency hk
      · have := hf.bound
        omega
      · have := hf.limit m hm
        omega

theorem Funded.step (h : Funded s) (c : Call) : Funded (s.step c).1 := by
  rcases s.step_cases c with hr | he
  · rw [hr.unchanged]
    exact h
  · exact he.funded h

/-- What holds at the instant of an admission. -/
theorem Funded.admitted (hf : Funded s) {request nowMs snapshot}
    (h : s.Admissible request nowMs snapshot) :
    (s.addReservation (s.reservationFor request snapshot)).exactRisk ≤
        snapshot.availableBalance.units.toInt ∧
      snapshot.capturedAtMs.toInt ≤ nowMs.toInt ∧
      nowMs.toInt - snapshot.capturedAtMs.toInt ≤ s.config.maxSnapshotAgeMs.toInt := by
  obtain ⟨hnext, _⟩ := hf.next h
  have hbal := h.balance
  rw [Int64.le_iff_toInt_le, hnext] at hbal
  have hfut := Int64.le_iff_toInt_le.mp h.notFuture
  have hage := UInt64.le_iff_toNat_le.mp h.fresh
  have hdist := Lib.int64_distance hfut
  have hmax := Lib.int64_toUInt64 s.config.maxSnapshotAgeMs
  have hnn : 0 ≤ s.config.maxSnapshotAgeMs.toInt := by
    have hv := h.valid
    simp only [valid, RiskAdmissionConfig.valid, Bool.and_eq_true, decide_eq_true_eq,
      Int64.le_iff_toInt_le, Int64.toInt_zero] at hv
    exact hv.1.1.2
  have hlt := s.config.maxSnapshotAgeMs.toInt_lt
  refine ⟨by rw [h.exactRisk]; exact hbal, hfut, ?_⟩
  omega

end RiskAdmission

end OptionX.TradingSystem
