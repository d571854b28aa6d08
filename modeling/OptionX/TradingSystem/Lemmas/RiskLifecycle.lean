import OptionX.TradingSystem.Lemmas.RiskTotal

/-!
# The life of a reservation

What a run of the risk owner has bound: every admitted reservation keeps its key, its intent and its id for
ever, moves forwards only, and is committed, released and settled at most once.
-/

namespace OptionX.TradingSystem

open Lib (OrderedMap)

namespace RiskAdmission

abbrev RiskStep := Lib.Step RiskAdmission Call RiskAdmissionResult

/-- The reservation that a step has admitted. -/
def admission (t : RiskStep) : Option RiskReservation :=
  if t.answer.kind = .admitted then t.answer.reservation else none

/-- The id of the reservation that a step with a call of the given sort has moved. -/
def appliedBy (sort : Call → Bool) (t : RiskStep) : Option UInt64 :=
  if sort t.event && t.answer.kind == .applied then t.answer.reservation.map (·.reservationId)
  else none

def Call.isCommit : Call → Bool
  | .commit _ => true
  | _ => false

def Call.isRelease : Call → Bool
  | .release _ => true
  | _ => false

def Call.isSettle : Call → Bool
  | .settle _ _ => true
  | _ => false

variable {s s' : RiskAdmission} {c : Call} {result : RiskAdmissionResult} {ts : List RiskStep}
  {t : RiskStep}

theorem admission_of_refused (h : Refused s s' t.answer) : admission t = none := by
  simp [admission, h.notAdmitted]

theorem appliedBy_of_refused (h : Refused s s' t.answer) (sort : Call → Bool) :
    appliedBy sort t = none := by
  unfold appliedBy
  split
  · rename_i hk
    rw [Bool.and_eq_true, beq_iff_eq] at hk
    simp [h.notApplied hk.2]
  · rfl

/-- What an effect answers. -/
theorem Effect.admission_eq (he : Effect s c s' t.answer) :
    admission t = none ∧ s'.byIntent = s.byIntent ∧
        s'.nextReservationId = s.nextReservationId ∧
        s'.idSequenceExhausted = s.idSequenceExhausted ∧
        s'.idSequenceValid = s.idSequenceValid ∧ (∀ k r, s'.byKey.find? k = some r →
          ∃ r₀, s.byKey.find? k = some r₀ ∧ r = { r₀ with state := r.state }) ∧
        (∀ k r, s.byKey.find? k = some r →
          ∃ state, s'.byKey.find? k = some { r with state } ∧
            (state = r.state ∨ r.state.Moves state)) ∨
      ∃ request nowMs snapshot, s.Admissible request nowMs snapshot ∧
        s' = s.addReservation (s.reservationFor request snapshot) ∧
        admission t = some (s.reservationFor request snapshot) := by
  generalize hr : t.answer = result at he
  cases he with
  | snapshot valid currency =>
      refine Or.inl ⟨by simp [admission, hr], rfl, rfl, rfl, rfl, fun k r h => ⟨r, h, rfl⟩,
        fun k r h => ⟨r.state, h, Or.inl rfl⟩⟩
  | reserve h =>
      exact Or.inr ⟨_, _, _, h, rfl, by simp [admission, hr, RiskAdmissionResult.admitted]⟩
  | move call_move found token_eq allowed evidence =>
      rename_i token target stored reason
      have hkey := found_key found token_eq
      refine Or.inl ⟨by simp [admission, hr, RiskAdmissionResult.applied], rfl, rfl, rfl, rfl,
        fun k r h => ?_, fun k r h => ?_⟩
      · rw [find?_moved hkey] at h
        split at h
        · rename_i hk
          obtain rfl := Option.some.inj h
          exact ⟨stored, hk ▸ hkey, rfl⟩
        · exact ⟨r, h, rfl⟩
      · rw [find?_moved hkey]
        split
        · rename_i hk
          rw [hk, hkey, Option.some.injEq] at h
          subst h
          exact ⟨target, rfl, Or.inr allowed⟩
        · exact ⟨r.state, h, Or.inl rfl⟩

/-- One call moves a stored reservation along the lifecycle or leaves it, and changes nothing else of it. -/
theorem step_moves (s : RiskAdmission) (c : Call) {k : String} {r : RiskReservation}
    (hk : s.byKey.find? k = some r) : ∃ state, (s.step c).1.byKey.find? k = some { r with state } ∧
      (state = r.state ∨ r.state.Moves state) := by
  rcases s.step_cases c with hr | he
  · rw [hr.unchanged]
    exact ⟨r.state, hk, Or.inl rfl⟩
  · rcases Effect.admission_eq (t := Lib.Run.stepOf step s c) he with ⟨_, _, _, _, _, _, h⟩ | h
    · exact h k r hk
    · obtain ⟨request, nowMs, snapshot, ha, hs, _⟩ := h
      refine ⟨r.state, ?_, Or.inl rfl⟩
      rw [hs, find?_addReservation ha]
      split
      · rename_i he
        rw [he, ha.newKey] at hk
        cases hk
      · exact hk

/-! ## Bindings -/

/-- What the reservations admitted so far are bound to. -/
structure Bindings (ts : List RiskStep) (s : RiskAdmission) : Prop where
  stored : ∀ {k r}, s.byKey.find? k = some r → r.idempotencyKey = k ∧
    ∃ a ∈ ts.filterMap admission, r = { a with state := r.state }
  kept : ∀ a ∈ ts.filterMap admission, ∃ state, s.byKey.find? a.idempotencyKey = some { a with state }
  byIntent : ∀ i k, s.byIntent.find? i = some k ↔
    ∃ a ∈ ts.filterMap admission, a.intentId = i ∧ a.idempotencyKey = k
  keys : ((ts.filterMap admission).map (·.idempotencyKey)).Nodup
  intents : ((ts.filterMap admission).map (·.intentId)).Nodup
  ids : ((ts.filterMap admission).map (·.reservationId)).Nodup
  nonzero : ∀ a ∈ ts.filterMap admission, a.reservationId ≠ 0
  /-- Until the sequence is exhausted the next id is new. -/
  fresh : s.idSequenceExhausted = false →
    ∀ a ∈ ts.filterMap admission, a.reservationId.toNat < s.nextReservationId.toNat
  next : s.idSequenceValid = true → s.idSequenceExhausted = false → s.nextReservationId ≠ 0

theorem Bindings.create (config : RiskAdmissionConfig) (first : UInt64) :
    Bindings [] (create config first) where
  stored := fun h => by cases h
  kept := by simp
  byIntent := by simp [RiskAdmission.create]
  keys := by simp
  intents := by simp
  ids := by simp
  nonzero := by simp
  fresh := by simp
  next := by
    intro h _
    simpa [RiskAdmission.create] using h

theorem Bindings.same (h : Bindings ts s) (hn : admission t = none)
    (hi : s'.byIntent = s.byIntent) (hnext : s'.nextReservationId = s.nextReservationId)
    (hex : s'.idSequenceExhausted = s.idSequenceExhausted)
    (hval : s'.idSequenceValid = s.idSequenceValid)
    (hback : ∀ k r, s'.byKey.find? k = some r →
      ∃ r₀, s.byKey.find? k = some r₀ ∧ r = { r₀ with state := r.state })
    (hforth : ∀ k r, s.byKey.find? k = some r →
      ∃ state, s'.byKey.find? k = some { r with state } ∧ (state = r.state ∨ r.state.Moves state)) :
    Bindings (ts ++ [t]) s' where
  stored := by
    intro k r hk
    obtain ⟨r₀, h₀, hr⟩ := hback k r hk
    obtain ⟨hkey, a, ha, hra⟩ := h.stored h₀
    refine ⟨by rw [hr]; exact hkey, a, by simpa [hn] using ha, ?_⟩
    rw [hr, hra]
  kept := by
    intro a ha
    obtain ⟨st, hst⟩ := h.kept a (by simpa [hn] using ha)
    obtain ⟨st', hst', _⟩ := hforth _ _ hst
    exact ⟨st', hst'⟩
  byIntent := by simpa [hn, hi] using h.byIntent
  keys := by simpa [hn] using h.keys
  intents := by simpa [hn] using h.intents
  ids := by simpa [hn] using h.ids
  nonzero := by simpa [hn] using h.nonzero
  fresh := by
    rw [hex, hnext]
    simpa [hn] using h.fresh
  next := by
    rw [hex, hval, hnext]
    exact h.next

/-- The id after the last one: the sequence counts up to its largest word and then stops. -/
theorem addReservation_next {request snapshot}
    (he : (s.addReservation (s.reservationFor request snapshot)).idSequenceExhausted = false) :
    (s.addReservation (s.reservationFor request snapshot)).nextReservationId.toNat =
      s.nextReservationId.toNat + 1 := by
  have hlast : (s.nextReservationId == 18446744073709551615) = false := he
  have hne : (s.addReservation (s.reservationFor request snapshot)).nextReservationId =
      s.nextReservationId + 1 := by
    simp [addReservation, reservationFor, hlast]
  rw [beq_eq_false_iff_ne, Ne, ← UInt64.toNat_inj] at hlast
  have hmax : (18446744073709551615 : UInt64).toNat = 18446744073709551615 := rfl
  have hlt := s.nextReservationId.toNat_lt
  rw [hne, UInt64.toNat_add, UInt64.toNat_one]
  omega

/-- Under the intents of the bindings nothing is stored for an intent that is not bound. -/
theorem Bindings.addReservation (h : Bindings ts s) {request nowMs snapshot}
    (ha : s.Admissible request nowMs snapshot)
    (hadm : admission t = some (s.reservationFor request snapshot)) :
    Bindings (ts ++ [t]) (s.addReservation (s.reservationFor request snapshot)) := by
  have hmem : ∀ a, a ∈ (ts ++ [t]).filterMap admission ↔
      a ∈ ts.filterMap admission ∨ a = s.reservationFor request snapshot := by
    intro a
    simp [hadm]
  have hkey : ∀ a ∈ ts.filterMap admission, a.idempotencyKey ≠ request.idempotencyKey := by
    intro a hm he
    obtain ⟨st, hst⟩ := h.kept a hm
    rw [he, ha.newKey] at hst
    cases hst
  have hintent : ∀ a ∈ ts.filterMap admission, a.intentId ≠ request.intentId := by
    intro a hm he
    have := (h.byIntent a.intentId a.idempotencyKey).mpr ⟨a, hm, rfl, rfl⟩
    rw [he, ha.newIntent] at this
    cases this
  have hfresh := h.fresh ha.sequence
  have hvalid : s.idSequenceValid = true := by
    have := ha.valid
    simp only [RiskAdmission.valid, Bool.and_eq_true] at this
    exact this.2
  have hmap : ∀ {β : Type} (f : RiskReservation → β), ((ts ++ [t]).filterMap admission).map f =
      (ts.filterMap admission).map f ++ [f (s.reservationFor request snapshot)] := by
    intro β f
    simp [hadm]
  have hnodup : ∀ {β : Type} (f : RiskReservation → β), ((ts.filterMap admission).map f).Nodup →
      (∀ a ∈ ts.filterMap admission, f a ≠ f (s.reservationFor request snapshot)) →
      (((ts ++ [t]).filterMap admission).map f).Nodup := by
    intro β f hf hne
    rw [hmap]
    refine List.nodup_append.mpr ⟨hf, by simp, fun x hx y hy => ?_⟩
    obtain ⟨a, hm, rfl⟩ := List.mem_map.mp hx
    rw [List.mem_singleton] at hy
    rw [hy]
    exact hne a hm
  exact
    { stored := by
        intro k r hk
        rw [find?_addReservation ha] at hk
        split at hk
        · rename_i he
          obtain rfl := Option.some.inj hk
          exact ⟨he.symm, _, (hmem _).mpr (Or.inr rfl), rfl⟩
        · obtain ⟨hkr, a, hm, hr⟩ := h.stored hk
          exact ⟨hkr, a, (hmem a).mpr (Or.inl hm), hr⟩
      kept := by
        intro a hm
        rcases (hmem a).mp hm with hm | rfl
        · obtain ⟨st, hst⟩ := h.kept a hm
          refine ⟨st, ?_⟩
          rw [find?_addReservation ha, if_neg (hkey a hm)]
          exact hst
        · refine ⟨.reserved, ?_⟩
          exact (find?_addReservation ha _).trans (if_pos rfl)
      byIntent := by
        intro i k
        have hi : (s.addReservation (s.reservationFor request snapshot)).byIntent.find? i =
            if i = request.intentId then some request.idempotencyKey else s.byIntent.find? i :=
          OrderedMap.find?_emplace ha.newIntent _ i
        rw [hi]
        split
        · rename_i he
          constructor
          · intro hk
            exact ⟨_, (hmem _).mpr (Or.inr rfl), he.symm, Option.some.inj hk⟩
          · rintro ⟨a, hm, hai, hak⟩
            rcases (hmem a).mp hm with hm | rfl
            · exact absurd (hai.trans he) (hintent a hm)
            · rw [← hak]
              rfl
        · rename_i hne
          rw [h.byIntent]
          constructor
          · rintro ⟨a, hm, hai⟩
            exact ⟨a, (hmem a).mpr (Or.inl hm), hai⟩
          · rintro ⟨a, hm, hai⟩
            rcases (hmem a).mp hm with hm | rfl
            · exact ⟨a, hm, hai⟩
            · exact absurd hai.1.symm hne
      keys := hnodup _ h.keys hkey
      intents := hnodup _ h.intents hintent
      ids := by
        refine hnodup _ h.ids (fun a hm he => ?_)
        have hlt := hfresh a hm
        rw [he] at hlt
        exact absurd hlt (lt_irrefl _)
      nonzero := by
        intro a hm
        rcases (hmem a).mp hm with hm | rfl
        · exact h.nonzero a hm
        · exact h.next hvalid ha.sequence
      fresh := by
        intro he a hm
        rw [addReservation_next he]
        rcases (hmem a).mp hm with hm | rfl
        · have := hfresh a hm
          omega
        · exact Nat.lt_succ_self _
      next := by
        intro _ he h0
        have := addReservation_next he
        rw [h0, UInt64.toNat_zero] at this
        omega }

theorem Bindings.step (h : Bindings ts s) (c : Call) :
    Bindings (ts ++ [Lib.Run.stepOf step s c]) (s.step c).1 := by
  rcases s.step_cases c with hr | he
  · have hn := admission_of_refused (t := Lib.Run.stepOf RiskAdmission.step s c) hr
    rw [hr.unchanged]
    exact h.same hn rfl rfl rfl rfl (fun k r hk => ⟨r, hk, rfl⟩)
      (fun k r hk => ⟨r.state, hk, Or.inl rfl⟩)
  · rcases Effect.admission_eq (t := Lib.Run.stepOf RiskAdmission.step s c) he with
      ⟨hn, hi, hnext, hex, hval, hback, hforth⟩ | ⟨request, nowMs, snapshot, ha, hs, hadm⟩
    · exact h.same hn hi hnext hex hval hback hforth
    · rw [hs]
      exact h.addReservation ha hadm

/-! ## At most once -/

/-- The calls of a sort have moved distinct reservations, and each of these is still in a state that the
sort leads to. -/
structure Once (sort : Call → Bool) (Q : RiskReservationState → Prop) (ts : List RiskStep)
    (s : RiskAdmission) : Prop where
  nodup : (ts.filterMap (appliedBy sort)).Nodup
  reached : ∀ id ∈ ts.filterMap (appliedBy sort),
    ∃ k r, s.byKey.find? k = some r ∧ r.reservationId = id ∧ Q r.state

/-- Two stored reservations with one id are the same. -/
theorem Bindings.id_inj (h : Bindings ts s) {k k' : String} {r r' : RiskReservation}
    (hk : s.byKey.find? k = some r) (hk' : s.byKey.find? k' = some r')
    (hid : r.reservationId = r'.reservationId) : r = r' := by
  obtain ⟨hkey, a, ha, hr⟩ := h.stored hk
  obtain ⟨hkey', a', ha', hr'⟩ := h.stored hk'
  have hida : a.reservationId = a'.reservationId := by
    rw [hr, hr'] at hid
    exact hid
  have haa : a = a' := List.inj_on_of_nodup_map h.ids ha ha' hida
  have hkk : k = k' := by
    rw [← hkey, ← hkey', hr, hr', haa]
  rw [hkk, hk'] at hk
  exact (Option.some.inj hk).symm

/-- A sort of call that leads from outside `Q` into `Q`, where `Q` is never left, moves a reservation at
most once. -/
theorem Once.step {sort : Call → Bool} {Q : RiskReservationState → Prop}
    (hclosed : ∀ a b : RiskReservationState, a.Moves b → Q a → Q b)
    (henter : ∀ c token target, sort c = true → Call.move c = some (token, target) →
      ∀ st : RiskReservationState, st.Moves target → ¬ Q st ∧ Q target)
    (hb : Bindings ts s) (h : Once sort Q ts s) (c : Call) :
    Once sort Q (ts ++ [Lib.Run.stepOf step s c]) (s.step c).1 := by
  have hkeep : ∀ id ∈ ts.filterMap (appliedBy sort),
      ∃ k r, (s.step c).1.byKey.find? k = some r ∧ r.reservationId = id ∧ Q r.state := by
    intro id hid
    obtain ⟨k, r, hk, hrid, hq⟩ := h.reached id hid
    obtain ⟨st, hst, hmv⟩ := step_moves s c hk
    refine ⟨k, _, hst, hrid, ?_⟩
    rcases hmv with rfl | hmv
    · exact hq
    · exact hclosed _ _ hmv hq
  have hnone : appliedBy sort (Lib.Run.stepOf RiskAdmission.step s c) = none →
      Once sort Q (ts ++ [Lib.Run.stepOf RiskAdmission.step s c]) (s.step c).1 := fun hn =>
    ⟨by simpa [hn] using h.nodup, by simpa [hn] using hkeep⟩
  rcases s.step_cases c with hr | he
  · exact hnone (appliedBy_of_refused (t := Lib.Run.stepOf RiskAdmission.step s c) hr sort)
  · generalize h1 : (s.step c).1 = s' at he hkeep hnone ⊢
    generalize h2 : (s.step c).2 = result at he
    cases he with
    | snapshot valid currency => exact hnone (by simp [appliedBy, h2])
    | reserve ha => exact hnone (by simp [appliedBy, h2, RiskAdmissionResult.admitted])
    | move call_move found token_eq allowed evidence =>
        rename_i token target stored reason
        cases hs : sort c with
        | false => exact hnone (by simp [appliedBy, hs])
        | true =>
            obtain ⟨hout, hin⟩ := henter c token target hs call_move _ allowed
            have hkey := found_key found token_eq
            have happ : appliedBy sort (Lib.Run.stepOf RiskAdmission.step s c) =
                some stored.reservationId := by
              simp [appliedBy, hs, h2, RiskAdmissionResult.applied]
            have hnew : stored.reservationId ∉ ts.filterMap (appliedBy sort) := by
              intro hm
              obtain ⟨k, r, hk, hrid, hq⟩ := h.reached _ hm
              rw [hb.id_inj hk hkey hrid] at hq
              exact hout hq
            constructor
            · simp only [List.filterMap_append, List.filterMap_cons, happ, List.filterMap_nil]
              refine List.nodup_append.mpr ⟨h.nodup, by simp, fun x hx y hy hxy => ?_⟩
              rw [List.mem_singleton] at hy
              exact hnew (hy ▸ hxy ▸ hx)
            · intro id hid
              simp only [List.filterMap_append, List.filterMap_cons, happ, List.filterMap_nil,
                List.mem_append, List.mem_singleton] at hid
              rcases hid with hid | rfl
              · exact hkeep id hid
              · refine ⟨stored.idempotencyKey, { stored with state := target }, ?_, rfl, hin⟩
                rw [find?_moved hkey, if_pos rfl]

/-! ## Exposed reservations -/

/-- A reservation that was exposed is exposed or settled. -/
def Tracked (ts : List RiskStep) (s : RiskAdmission) : Prop :=
  ∀ u ∈ ts, ∀ k r, u.after.byKey.find? k = some r → r.state.Exposed →
    ∃ r', s.byKey.find? k = some r' ∧ (r'.state.Exposed ∨ r'.state = .settled)

theorem Tracked.step (h : Tracked ts s) (c : Call) :
    Tracked (ts ++ [Lib.Run.stepOf step s c]) (s.step c).1 := by
  intro u hu k r hk hx
  rcases List.mem_append.mp hu with hu | hu
  · obtain ⟨r', hr', hst⟩ := h u hu k r hk hx
    obtain ⟨st, hst', hmv⟩ := step_moves s c hr'
    refine ⟨_, hst', ?_⟩
    rcases hmv with rfl | hmv
    · exact hst
    · rcases hst with hst | hst
      · exact hst.moves hmv
      · rw [hst] at hmv
        cases hmv
  · rw [List.mem_singleton] at hu
    rw [hu] at hk
    exact ⟨r, hk, Or.inl hx⟩

/-- The risk of an exposed reservation is dropped only by a settlement with evidence valid for it. -/
theorem settle_of_dropped {k : String} {r r' : RiskReservation} (hk : s.byKey.find? k = some r)
    (hx : r.state.Exposed) (hk' : (s.step c).1.byKey.find? k = some r')
    (hd : r'.state.active = false) :
    ∃ token evidence, c = .settle token evidence ∧ evidence.validFor r = true := by
  have hact := hx.active
  rcases s.step_cases c with hr | he
  · rw [hr.unchanged, hk, Option.some.injEq] at hk'
    rw [← hk', hact] at hd
    cases hd
  · generalize (s.step c).1 = s' at he hk'
    generalize (s.step c).2 = result at he
    cases he with
    | snapshot valid currency =>
        rw [hk, Option.some.injEq] at hk'
        rw [← hk', hact] at hd
        cases hd
    | reserve ha =>
        rw [find?_addReservation ha] at hk'
        split at hk'
        · rename_i he
          rw [he, ha.newKey] at hk
          cases hk
        · rw [hk, Option.some.injEq] at hk'
          rw [← hk', hact] at hd
          cases hd
    | move call_move found token_eq allowed evidence =>
        rename_i token target stored reason
        have hkey := found_key found token_eq
        rw [find?_moved hkey] at hk'
        split at hk'
        · rename_i he
          rw [he, hkey, Option.some.injEq] at hk
          subst hk
          obtain rfl := Option.some.inj hk'
          rcases hx.moves allowed with ht | ht
          · rcases ht with ht | ht <;> simp [ht, RiskReservationState.active] at hd
          · subst ht
            cases c with
            | settle tok ev => exact ⟨tok, ev, rfl, evidence tok ev rfl⟩
            | _ => simp [Call.move] at call_move
        · rw [hk, Option.some.injEq] at hk'
          rw [← hk', hact] at hd
          cases hd

end RiskAdmission

end OptionX.TradingSystem
