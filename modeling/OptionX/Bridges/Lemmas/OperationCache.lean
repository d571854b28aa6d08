import OptionX.Bridges.OperationCache

/-!
# The cache stays counted

What pruning and eviction keep: the order list names the stored keys, the counter holds their bytes, and no operation in
flight goes.
-/

namespace OptionX.Bridges

open Lib (OrderedMap)

namespace OperationCache

variable {R : Type} {limits : CacheLimits} {now : Int} {s s' s'' : OperationCache R} {key : String}
  {operation : StoredOperation R}

/-- The counter holds the bytes of the stored operations, and has never gone below zero. -/
structure Counted (s : OperationCache R) : Prop where
  bytes : s.operationCacheBytes.value = s.operations.sumOf (·.byteSize)
  fits : s.operationCacheBytes.underflowed = false

structure Exact (s : OperationCache R) : Prop extends Counted s where
  order : s.operationOrder.Perm s.operations.keys

/-- Nothing new is stored, and no operation in flight has gone. -/
structure Shrinks (s s' : OperationCache R) : Prop where
  sub : ∀ k o, s'.operations.find? k = some o → s.operations.find? k = some o
  keeps : ∀ k o, s.operations.find? k = some o → o.dispatching = true → s'.operations.find? k = some o

def AllInFlight (s : OperationCache R) : Prop := ∀ k o, s.operations.find? k = some o → o.dispatching = true

theorem Shrinks.of_operations (h : s'.operations = s.operations) : Shrinks s s' :=
  ⟨fun _ _ hk => h ▸ hk, fun _ _ hk _ => h ▸ hk⟩

theorem Shrinks.refl (s : OperationCache R) : Shrinks s s := .of_operations rfl

theorem Shrinks.trans (h : Shrinks s s') (h' : Shrinks s' s'') : Shrinks s s'' :=
  ⟨fun k o hk => h.sub k o (h'.sub k o hk), fun k o hk hd => h'.keeps k o (h.keeps k o hk hd) hd⟩

theorem Shrinks.allInFlight (h : Shrinks s s') (hs : AllInFlight s) : AllInFlight s' :=
  fun k o hk => hs k o (h.sub k o hk)

/-! ## One operation leaves -/

theorem Counted.sub {c : ByteCounter} {n : Nat} (h : n ≤ c.value) (hfits : c.underflowed = false) :
    (c.sub n).value = c.value - n ∧ (c.sub n).underflowed = false := by
  rw [ByteCounter.sub, if_pos h]
  exact ⟨rfl, hfits⟩

theorem Counted.le (h : Counted s) (hk : s.operations.find? key = some operation) :
    operation.byteSize ≤ s.operationCacheBytes.value := by
  have := OrderedMap.sumOf_erase hk (·.byteSize)
  rw [h.bytes]
  omega

theorem Counted.dropOperation (h : Counted s) (hk : s.operations.find? key = some operation) :
    Counted (s.dropOperation key operation) := by
  obtain ⟨hvalue, hfits⟩ := Counted.sub (h.le hk) h.fits
  have hsum := OrderedMap.sumOf_erase hk (·.byteSize)
  refine ⟨?_, hfits⟩
  have hbytes := h.bytes
  simp only [OperationCache.dropOperation]
  omega

theorem Shrinks.dropOperation (hk : s.operations.find? key = some operation) (hd : operation.dispatching = false) :
    Shrinks s (s.dropOperation key operation) := by
  refine ⟨fun k o ho => ?_, fun k o ho hflight => ?_⟩
  · simp only [OperationCache.dropOperation, OrderedMap.find?_erase] at ho
    split at ho
    · cases ho
    · exact ho
  · simp only [OperationCache.dropOperation, OrderedMap.find?_erase]
    rw [if_neg]
    · exact ho
    · rintro rfl
      rw [hk] at ho
      cases ho
      rw [hd] at hflight
      cases hflight

/-! ## What pruning keeps -/

theorem pruneExpired_shrinks (s : OperationCache R) (kept order : List String) :
    Shrinks s (pruneExpired limits now s kept order) := by
  induction order generalizing s kept with
  | nil => exact .of_operations rfl
  | cons key rest ih =>
      rw [pruneExpired]
      cases hk : s.operations.find? key with
      | none => exact ih s kept
      | some operation =>
          dsimp only
          split
          · next hexpired =>
            have hd : operation.dispatching = false := by
              unfold expired at hexpired
              simp only [Bool.and_eq_true, Bool.not_eq_true'] at hexpired
              exact hexpired.1.1
            exact (Shrinks.dropOperation hk hd).trans (ih _ kept)
          · exact ih s _

theorem evictFrom_shrinks (s : OperationCache R) (kept order : List String) : Shrinks s (evictFrom s kept order).1 := by
  induction order generalizing kept with
  | nil => exact .of_operations rfl
  | cons key rest ih =>
      rw [evictFrom]
      cases hk : s.operations.find? key with
      | none => exact ih kept
      | some operation =>
          dsimp only
          split
          · exact ih _
          · next hd => exact (Shrinks.dropOperation hk (by simpa using hd)).trans (.of_operations rfl)

theorem evictWhile_shrinks (exceeded : OperationCache R → Bool) (fuel : Nat) (s : OperationCache R) :
    Shrinks s (evictWhile exceeded fuel s) := by
  induction fuel generalizing s with
  | zero => exact .refl s
  | succ fuel ih =>
      have hone : Shrinks s s.evictOldestCompletedOperation.1 := evictFrom_shrinks s [] _
      rw [evictWhile]
      split
      · dsimp only
        split
        · exact hone.trans (ih _)
        · exact hone
      · exact .refl s

/-- No pruning, whatever it makes room for, takes an operation in flight. -/
theorem prune_shrinks (limits : CacheLimits) (now : Int) (requiredBytes requiredRecords : Nat) (s : OperationCache R) :
    Shrinks s (s.pruneCompletedOperations limits now requiredBytes requiredRecords) :=
  ((pruneExpired_shrinks s [] _).trans (evictWhile_shrinks _ _ _)).trans (evictWhile_shrinks _ _ _)

/-! ## Pruning counts -/

/-- A key of the order list that is not stored cannot be there. -/
theorem not_perm_of_find?_none {kept rest : List String} (hk : s.operations.find? key = none)
    (hperm : (kept ++ key :: rest).Perm s.operations.keys) : False := by
  have hmem : key ∈ s.operations.keys := hperm.subset (by simp)
  obtain ⟨o, ho⟩ := OrderedMap.mem_keys.mp hmem
  rw [hk] at ho
  cases ho

theorem perm_dropOperation {kept rest : List String} (hk : s.operations.find? key = some operation)
    (hperm : (kept ++ key :: rest).Perm s.operations.keys) :
    (kept ++ rest).Perm (s.dropOperation key operation).operations.keys := by
  have h := (List.perm_middle.symm.trans hperm).trans (OrderedMap.keys_perm_erase hk).symm
  exact h.cons_inv

variable (limits now) in
theorem pruneExpired_exact (kept order : List String) (hs : Counted s)
    (hperm : (kept ++ order).Perm s.operations.keys) : Exact (pruneExpired limits now s kept order) := by
  induction order generalizing s kept with
  | nil => exact ⟨⟨hs.bytes, hs.fits⟩, by simpa [pruneExpired] using hperm⟩
  | cons key rest ih =>
      rw [pruneExpired]
      cases hk : s.operations.find? key with
      | none => exact (not_perm_of_find?_none hk hperm).elim
      | some operation =>
          dsimp only
          split
          · exact ih _ (hs.dropOperation hk) (perm_dropOperation hk hperm)
          · exact ih _ hs (by simpa using hperm)

/-- An eviction takes an operation that is not in flight, or there is none. -/
theorem evictFrom_spec (kept order : List String) (hs : Counted s)
    (hperm : (kept ++ order).Perm s.operations.keys) :
    Exact (evictFrom s kept order).1 ∧
      ((evictFrom s kept order).2 = true →
        (evictFrom s kept order).1.operations.keys.length < s.operations.keys.length) ∧
      ((evictFrom s kept order).2 = false →
        ∀ k ∈ order, ∀ o, s.operations.find? k = some o → o.dispatching = true) := by
  induction order generalizing s kept with
  | nil =>
      refine ⟨⟨⟨hs.bytes, hs.fits⟩, by simpa [evictFrom] using hperm⟩, fun h => ?_, by simp⟩
      cases h
  | cons key rest ih =>
      rw [evictFrom]
      cases hk : s.operations.find? key with
      | none => exact (not_perm_of_find?_none hk hperm).elim
      | some operation =>
          dsimp only
          split
          · next hd =>
            obtain ⟨hexact, hless, hnone⟩ := ih (kept ++ [key]) hs (by simpa using hperm)
            refine ⟨hexact, hless, fun h k hmem o ho => ?_⟩
            rcases List.mem_cons.mp hmem with rfl | hmem
            · rw [hk] at ho
              cases ho
              exact hd
            · exact hnone h k hmem o ho
          · have hcounted := hs.dropOperation hk
            have hlen := (OrderedMap.keys_perm_erase hk).length_eq
            refine ⟨⟨⟨hcounted.bytes, hcounted.fits⟩, perm_dropOperation hk hperm⟩, fun _ => ?_, fun h => ?_⟩
            · simp only [List.length_cons] at hlen
              simp only [OperationCache.dropOperation]
              omega
            · cases h

theorem evictOldest_spec (hs : Exact s) :
    Exact s.evictOldestCompletedOperation.1 ∧
      (s.evictOldestCompletedOperation.2 = true →
        s.evictOldestCompletedOperation.1.operations.keys.length < s.operations.keys.length) ∧
      (s.evictOldestCompletedOperation.2 = false → AllInFlight s.evictOldestCompletedOperation.1) := by
  obtain ⟨hexact, hless, hnone⟩ := evictFrom_spec [] s.operationOrder hs.toCounted hs.order
  refine ⟨hexact, hless, fun h => (evictFrom_shrinks s [] _).allInFlight fun k o ho => ?_⟩
  exact hnone h k (hs.order.symm.subset (OrderedMap.mem_keys.mpr ⟨o, ho⟩)) o ho

/-- The loop ends by itself, where the limit is kept or all operations are in flight. -/
theorem evictWhile_spec {exceeded : OperationCache R → Bool} {fuel : Nat} (hs : Exact s)
    (hfuel : s.operations.keys.length < fuel) :
    Exact (evictWhile exceeded fuel s) ∧
      (exceeded (evictWhile exceeded fuel s) = false ∨ AllInFlight (evictWhile exceeded fuel s)) := by
  induction fuel generalizing s with
  | zero => cases hfuel
  | succ fuel ih =>
      obtain ⟨hexact, hless, hnone⟩ := evictOldest_spec hs
      rw [evictWhile]
      split
      · dsimp only
        split
        · next hevicted => exact ih hexact (by have := hless hevicted; omega)
        · next hnot => exact ⟨hexact, .inr (hnone (by simpa using hnot))⟩
      · next hkept => exact ⟨hs, .inl (by simpa using hkept)⟩

theorem evictAll_spec (exceeded : OperationCache R → Bool) (hs : Exact s) :
    Exact (s.evictAll exceeded) ∧ (exceeded (s.evictAll exceeded) = false ∨ AllInFlight (s.evictAll exceeded)) :=
  evictWhile_spec hs (by omega)

theorem Shrinks.records_le (h : Shrinks s s') : s'.operations.keys.length ≤ s.operations.keys.length := by
  rw [OrderedMap.length_keys, OrderedMap.length_keys]
  exact OrderedMap.sumOf_le_of_sub h.sub _

/-- After pruning there is room for what is required, or all operations are in flight. -/
theorem prune_spec (limits : CacheLimits) (now : Int) (requiredBytes requiredRecords : Nat) (hs : Exact s) :
    let s' := s.pruneCompletedOperations limits now requiredBytes requiredRecords
    Exact s' ∧ (tooMany limits requiredRecords s' = false ∨ AllInFlight s') ∧
      (tooLarge limits requiredBytes s' = false ∨ AllInFlight s') := by
  intro s'
  have hexact := pruneExpired_exact limits now [] s.operationOrder hs.toCounted hs.order
  obtain ⟨hexact', hmany⟩ := evictAll_spec (tooMany limits requiredRecords) hexact
  obtain ⟨hexact'', hlarge⟩ := evictAll_spec (tooLarge limits requiredBytes) hexact'
  refine ⟨hexact'', ?_, hlarge⟩
  have hshrinks := evictWhile_shrinks (tooLarge limits requiredBytes)
    ((evictAll (tooMany limits requiredRecords) (pruneExpired limits now s [] s.operationOrder)).operations.keys.length + 1)
    (evictAll (tooMany limits requiredRecords) (pruneExpired limits now s [] s.operationOrder))
  rcases hmany with hmany | hall
  · left
    simp only [tooMany, decide_eq_false_iff_not, not_lt] at hmany ⊢
    exact le_trans (Nat.add_le_add_right hshrinks.records_le _) hmany
  · exact .inr (hshrinks.allInFlight hall)

/-! ## Limits -/

structure InBounds (limits : CacheLimits) (s : OperationCache R) : Prop where
  records : s.operations.keys.length ≤ limits.dedupeCacheSize
  size : s.operationCacheBytes.value ≤ limits.maxOperationCacheBytes

def inFlight (f : StoredOperation R → Nat) (o : StoredOperation R) : Nat := if o.dispatching then f o else 0

/-- The operations in flight keep the limits: those are all that pruning cannot take. -/
structure FlightBounds (limits : CacheLimits) (s : OperationCache R) : Prop where
  records : s.operations.sumOf (inFlight fun _ => 1) ≤ limits.dedupeCacheSize
  bytes : s.operations.sumOf (inFlight (·.byteSize)) ≤ limits.maxOperationCacheBytes

theorem inFlight_le (f : StoredOperation R → Nat) (m : OrderedMap String (StoredOperation R)) :
    m.sumOf (inFlight f) ≤ m.sumOf f := by
  refine List.sum_le_sum fun o _ => ?_
  unfold inFlight
  split <;> omega

theorem sumOf_eq_inFlight (f : StoredOperation R → Nat) (hall : AllInFlight s) :
    s.operations.sumOf f = s.operations.sumOf (inFlight f) :=
  OrderedMap.sumOf_congr fun k o ho => by rw [inFlight, if_pos (hall k o ho)]

theorem InBounds.flightBounds (hs : Exact s) (h : InBounds limits s) : FlightBounds limits s := by
  refine ⟨(inFlight_le _ _).trans ?_, (inFlight_le _ _).trans ?_⟩
  · rw [← OrderedMap.length_keys]
    exact h.records
  · rw [← hs.bytes]
    exact h.size

/-- What shrinks stays in bounds. -/
theorem InBounds.shrinks (h : InBounds limits s) (hs : Exact s) (hs' : Exact s') (hshrinks : Shrinks s s') :
    InBounds limits s' := by
  refine ⟨hshrinks.records_le.trans h.records, le_trans ?_ h.size⟩
  rw [hs.bytes, hs'.bytes]
  exact OrderedMap.sumOf_le_of_sub hshrinks.sub _

/-- Pruning brings a cache back into bounds when its operations in flight are. -/
theorem FlightBounds.prune (h : FlightBounds limits s) (hs : Exact s) (now : Int) :
    InBounds limits (s.pruneCompletedOperations limits now 0 0) := by
  obtain ⟨hexact, hmany, hlarge⟩ := prune_spec limits now 0 0 hs
  have hshrinks := prune_shrinks limits now 0 0 s
  have hflight : ∀ f, (s.pruneCompletedOperations limits now 0 0).operations.sumOf (inFlight f) ≤
      s.operations.sumOf (inFlight f) := fun f => OrderedMap.sumOf_le_of_sub hshrinks.sub _
  refine ⟨?_, ?_⟩
  · rcases hmany with hmany | hall
    · simpa [tooMany] using hmany
    · rw [OrderedMap.length_keys, sumOf_eq_inFlight _ hall]
      exact (hflight _).trans h.records
  · rcases hlarge with hlarge | hall
    · simpa [tooLarge] using hlarge
    · rw [hexact.bytes, sumOf_eq_inFlight _ hall]
      exact (hflight _).trans h.bytes

end OperationCache

end OptionX.Bridges
