import OptionX.Bridges.Lemmas.OperationCache

/-!
# The critical sections of the operation cache

Each of them leaves the cache counted and within its limits, and touches no operation in flight but the one that it
settles.
-/

namespace OptionX.Bridges

open Lib (OrderedMap)

namespace OperationCache

variable {R : Type} {dumpSize : R → Nat} {limits : CacheLimits} {s : OperationCache R} {key fingerprint : String}
  {result : R}

structure Good (limits : CacheLimits) (s : OperationCache R) : Prop extends Exact s, InBounds limits s

theorem Good.empty (limits : CacheLimits) : Good limits ({} : OperationCache R) :=
  ⟨⟨⟨rfl, rfl⟩, .refl _⟩, ⟨Nat.zero_le _, Nat.zero_le _⟩⟩

theorem Good.prune (h : Good limits s) (now : Int) (requiredBytes requiredRecords : Nat) :
    Good limits (s.pruneCompletedOperations limits now requiredBytes requiredRecords) :=
  have hexact := (prune_spec limits now requiredBytes requiredRecords h.toExact).1
  ⟨hexact, h.toInBounds.shrinks h.toExact hexact (prune_shrinks ..)⟩

/-- The operations in flight before are there after, but for those at the keys of a list. -/
def KeepsFlight (settled : String → Prop) (s s' : OperationCache R) : Prop :=
  ∀ k o, s.operations.find? k = some o → o.dispatching = true → ¬ settled k → s'.operations.find? k = some o

/-! ## Lookup -/

theorem touchOperation_perm {order : List String} (h : key ∈ order) : (touchOperation key order).Perm order :=
  (List.perm_append_singleton key (order.erase key)).trans (List.perm_cons_erase h).symm

variable (key fingerprint) in
theorem Good.lookup (h : Good limits s) (now : Int) :
    Good limits (s.tryCachedOperationResponse limits now key fingerprint).1 := by
  have hpruned := h.prune now 0 0
  unfold tryCachedOperationResponse
  dsimp only
  split
  · exact hpruned
  · next existing hk =>
    split
    · exact hpruned
    · split
      · exact hpruned
      · have hmem : key ∈ (s.pruneCompletedOperations limits now 0 0).operationOrder :=
          hpruned.order.symm.subset (OrderedMap.mem_keys.mpr ⟨existing, hk⟩)
        exact ⟨⟨⟨hpruned.bytes, hpruned.fits⟩, (touchOperation_perm hmem).trans hpruned.order⟩,
          ⟨hpruned.records, hpruned.size⟩⟩

theorem lookup_operations (now : Int) : (s.tryCachedOperationResponse limits now key fingerprint).1.operations =
    (s.pruneCompletedOperations limits now 0 0).operations := by
  unfold tryCachedOperationResponse
  dsimp only
  split
  · rfl
  · split_ifs <;> rfl

variable (s limits key fingerprint) in
/-- Nothing is stored at the key where the lookup has no answer. -/
theorem lookup_none (now : Int) (h : (s.tryCachedOperationResponse limits now key fingerprint).2 = none) :
    (s.tryCachedOperationResponse limits now key fingerprint).1.operations.find? key = none := by
  rw [lookup_operations]
  unfold tryCachedOperationResponse at h
  dsimp only at h
  split at h
  · assumption
  · split_ifs at h

/-! ## Reservation -/

theorem Good.reserve (h : Good limits s) (nowLookup nowPrune : Int) :
    Good limits (s.reserve dumpSize limits nowLookup nowPrune key fingerprint result).1 := by
  have hlookup := h.lookup key fingerprint nowLookup
  have hnone := lookup_none limits s key fingerprint nowLookup
  unfold OperationCache.reserve
  split
  · next s' response heq =>
    rw [heq] at hlookup
    exact hlookup
  · next s' heq =>
    rw [heq] at hlookup hnone
    dsimp only at hlookup hnone ⊢
    have hpruned := hlookup.prune nowPrune (operationByteSize dumpSize key fingerprint result) 1
    have hfree : (s'.pruneCompletedOperations limits nowPrune (operationByteSize dumpSize key fingerprint result)
        1).operations.find? key = none := by
      by_contra hsome
      obtain ⟨o, ho⟩ := Option.ne_none_iff_exists'.mp hsome
      have hold := (prune_shrinks limits nowPrune _ 1 s').sub key o ho
      rw [hnone rfl] at hold
      cases hold
    split
    · exact hpruned
    · next hroom =>
      split
      · exact hpruned
      · next hfits =>
        push Not at hroom hfits
        have hkeys := OrderedMap.keys_perm_emplace hfree (⟨fingerprint, result, 0,
          operationByteSize dumpSize key fingerprint result, true⟩ : StoredOperation R)
        have hbytes := hpruned.bytes
        refine ⟨⟨⟨?_, hpruned.fits⟩, ?_⟩, ?_, ?_⟩
        · rw [OrderedMap.sumOf_emplace hfree]
          simp only [ByteCounter.add]
          omega
        · exact (List.perm_append_singleton key _).trans ((hpruned.order.cons key).trans hkeys.symm)
        · have := hkeys.length_eq
          rw [this, List.length_cons]
          exact hroom
        · have := hfits.2
          simp only [ByteCounter.add]
          omega

theorem reserve_keepsFlight (nowLookup nowPrune : Int) : KeepsFlight (fun _ => False) s
    (s.reserve dumpSize limits nowLookup nowPrune key fingerprint result).1 := by
  intro k o hk hd _
  have hlookup : (s.tryCachedOperationResponse limits nowLookup key fingerprint).1.operations.find? k = some o := by
    rw [lookup_operations]
    exact (prune_shrinks ..).keeps k o hk hd
  have hnone := lookup_none limits s key fingerprint nowLookup
  unfold OperationCache.reserve
  split
  · next s' response heq =>
    rw [heq] at hlookup
    exact hlookup
  · next s' heq =>
    rw [heq] at hlookup hnone
    dsimp only at hlookup hnone ⊢
    have hpruned := (prune_shrinks limits nowPrune (operationByteSize dumpSize key fingerprint result) 1 s').keeps k o
      hlookup hd
    split
    · exact hpruned
    · split
      · exact hpruned
      · have hne : k ≠ key := by
          rintro rfl
          rw [hnone rfl] at hlookup
          cases hlookup
        exact OrderedMap.find?_emplace_of_some hpruned

/-! ## A remembered result -/

theorem Good.storeResult (h : Good limits s) (nowDone : Int) :
    Good limits (s.storeResult dumpSize limits nowDone key fingerprint result).1 := by
  unfold OperationCache.storeResult
  dsimp only
  generalize operationByteSize dumpSize key fingerprint result = byteSize
  have hsum := h.bytes
  split
  · exact h
  · next hlarge =>
    push Not at hlarge
    cases hk : s.operations.find? key with
    | none =>
        obtain ⟨hvalue, hfits⟩ := Counted.sub (c := s.operationCacheBytes) (Nat.zero_le _) h.fits
        simp only [Option.map_none, Option.getD_none, Option.isNone_none, true_and, if_true]
        split
        · exact ⟨⟨⟨h.bytes, hfits⟩, h.order⟩, ⟨h.records, h.size⟩⟩
        · next hbytes =>
          split
          · exact h
          · next hroom =>
            have hkeys := OrderedMap.keys_perm_assign_of_none hk (⟨fingerprint, result, nowDone, byteSize, false⟩ :
              StoredOperation R)
            refine ⟨⟨⟨?_, hfits⟩, ?_⟩, ?_, ?_⟩
            · rw [OrderedMap.sumOf_assign_of_none hk]
              simp only [ByteCounter.add, hvalue]
              omega
            · exact (List.perm_append_singleton key _).trans ((h.order.cons key).trans hkeys.symm)
            · rw [hkeys.length_eq, List.length_cons]
              omega
            · simp only [ByteCounter.add, hvalue] at hbytes ⊢
              omega
    | some existing =>
        obtain ⟨hvalue, hfits⟩ := Counted.sub (h.toCounted.le hk) h.fits
        simp only [Option.map_some, Option.getD_some, Option.isNone_some, Bool.false_eq_true, false_and, if_false]
        split
        · exact ⟨⟨⟨h.bytes, hfits⟩, h.order⟩, ⟨h.records, h.size⟩⟩
        · next hbytes =>
          have hkeys := OrderedMap.keys_assign_of_some hk (⟨fingerprint, result, nowDone, byteSize, false⟩ :
            StoredOperation R)
          have hassign := OrderedMap.sumOf_assign_of_some hk (⟨fingerprint, result, nowDone, byteSize, false⟩ :
            StoredOperation R) (·.byteSize)
          have hle := h.toCounted.le hk
          refine ⟨⟨⟨?_, hfits⟩, ?_⟩, ?_, ?_⟩
          · simp only [ByteCounter.add, hvalue] at hassign ⊢
            omega
          · rw [hkeys]
            exact h.order
          · rw [hkeys]
            exact h.records
          · simp only [ByteCounter.add, hvalue] at hbytes ⊢
            omega

theorem storeResult_keepsFlight (nowDone : Int) : KeepsFlight (· = key) s
    (s.storeResult dumpSize limits nowDone key fingerprint result).1 := by
  intro k o hk hd hne
  unfold OperationCache.storeResult
  dsimp only
  split
  · exact hk
  · split
    · exact hk
    · split
      · exact hk
      · rw [OrderedMap.find?_assign, if_neg hne]
        exact hk

theorem Good.remember (h : Good limits s) (nowPrune nowDone : Int) :
    Good limits (s.rememberOperation dumpSize limits nowPrune nowDone key fingerprint result).1 :=
  (h.prune nowPrune _ _).storeResult nowDone

theorem remember_keepsFlight (nowPrune nowDone : Int) : KeepsFlight (· = key) s
    (s.rememberOperation dumpSize limits nowPrune nowDone key fingerprint result).1 := by
  intro k o hk hd hne
  exact storeResult_keepsFlight nowDone k o ((prune_shrinks ..).keeps k o hk hd) hd hne

/-! ## Completion -/

/-- An operation gets another result: the counter follows. -/
theorem Counted.replace {operation : StoredOperation R} (h : Counted s)
    (hk : s.operations.find? key = some operation) (operation' : StoredOperation R) : Counted { s with
      operationCacheBytes := (s.operationCacheBytes.sub operation.byteSize).add operation'.byteSize
      operations := s.operations.set key operation' } := by
  obtain ⟨hvalue, hfits⟩ := Counted.sub (h.le hk) h.fits
  have hsum := OrderedMap.sumOf_set hk operation' (·.byteSize)
  have hle := h.le hk
  have hbytes := h.bytes
  refine ⟨?_, hfits⟩
  simp only [ByteCounter.add, hvalue]
  omega

/-- An operation that is no longer in flight leaves the limits to the others. -/
theorem FlightBounds.replace {operation operation' : StoredOperation R} (h : FlightBounds limits s)
    (hk : s.operations.find? key = some operation) (hd : operation'.dispatching = false) (c : ByteCounter)
    (order : List String) : FlightBounds limits { s with
      operationOrder := order
      operationCacheBytes := c
      operations := s.operations.set key operation' } := by
  have hle : ∀ f, (s.operations.set key operation').sumOf (inFlight f) ≤ s.operations.sumOf (inFlight f) := by
    intro f
    have hsum := OrderedMap.sumOf_set hk operation' (inFlight f)
    have hzero : inFlight f operation' = 0 := by rw [inFlight, hd]; rfl
    omega
  exact ⟨(hle _).trans h.records, (hle _).trans h.bytes⟩

theorem Good.complete (h : Good limits s) (nowDone nowPrune : Int) :
    Good limits (s.completeReservedOperation dumpSize limits nowDone nowPrune key result) := by
  unfold OperationCache.completeReservedOperation
  split
  · exact h
  · next existing hk =>
    dsimp only
    generalize hsize : operationByteSize dumpSize key existing.fingerprint result = byteSize
    generalize hop : ({ existing with result, byteSize, completedAtMs := nowDone, dispatching := false } :
      StoredOperation R) = operation
    have hopsize : operation.byteSize = byteSize := by rw [← hop]
    have hopd : operation.dispatching = false := by rw [← hop]
    have hmem : key ∈ s.operationOrder := h.order.symm.subset (OrderedMap.mem_keys.mpr ⟨existing, hk⟩)
    have hcounted := h.toCounted.replace hk operation
    have hexact : Exact { s with
        operationCacheBytes := (s.operationCacheBytes.sub existing.byteSize).add operation.byteSize
        operations := s.operations.set key operation
        operationOrder := touchOperation key s.operationOrder } := by
      refine ⟨⟨hcounted.bytes, hcounted.fits⟩, ?_⟩
      rw [OrderedMap.keys_set]
      exact (touchOperation_perm hmem).trans h.order
    rw [← hopsize]
    split
    · -- The result is too large to be kept: the operation goes, and the rest was in bounds before.
      have hset : (s.operations.set key operation).find? key = some operation := by
        rw [OrderedMap.find?_set hk, if_pos rfl]
      have hkeys := OrderedMap.keys_perm_erase hset
      have hdropped := hexact.toCounted.dropOperation hset
      have hsum := OrderedMap.sumOf_erase hset (·.byteSize)
      have hsum' := OrderedMap.sumOf_set hk operation (·.byteSize)
      refine ⟨⟨⟨hdropped.bytes, hdropped.fits⟩, ?_⟩, ?_, ?_⟩
      · have hperm := ((touchOperation_perm hmem).trans h.order).trans (OrderedMap.keys_set s.operations key operation ▸
          hkeys.symm)
        have hmem' : key ∈ touchOperation key s.operationOrder := by simp [touchOperation]
        exact ((List.perm_cons_erase hmem').symm.trans hperm).cons_inv
      · have hlen := hkeys.length_eq
        rw [OrderedMap.keys_set, List.length_cons] at hlen
        have := h.records
        simp only [OperationCache.dropOperation]
        omega
      · have hvalue := hdropped.bytes
        have := h.size
        have := h.bytes
        simp only [OperationCache.dropOperation] at hvalue ⊢
        omega
    · exact ⟨(prune_spec limits nowPrune 0 0 hexact).1,
        ((h.toInBounds.flightBounds h.toExact).replace hk hopd _ _).prune hexact nowPrune⟩

theorem complete_keepsFlight (nowDone nowPrune : Int) : KeepsFlight (· = key) s
    (s.completeReservedOperation dumpSize limits nowDone nowPrune key result) := by
  intro k o hk hd hne
  unfold OperationCache.completeReservedOperation
  split
  · exact hk
  · next existing hkey =>
    dsimp only
    split
    · simp only [OperationCache.dropOperation, OrderedMap.find?_erase, if_neg hne, OrderedMap.find?_set hkey]
      exact hk
    · refine (prune_shrinks ..).keeps k o ?_ hd
      rw [OrderedMap.find?_set hkey, if_neg hne]
      exact hk

/-! ## Failure at shutdown -/

variable (dumpSize result) in
theorem Exact.failOperation (h : Exact s) (clock : String → Int) (key : String) :
    Exact (failOperation dumpSize clock result s key) := by
  unfold OperationCache.failOperation
  split
  · exact h
  · next operation hk =>
    split
    · exact h
    · dsimp only
      have hcounted := h.toCounted.replace hk { operation with
        result, byteSize := operationByteSize dumpSize key operation.fingerprint result
        completedAtMs := clock key, dispatching := false }
      refine ⟨⟨hcounted.bytes, hcounted.fits⟩, ?_⟩
      rw [OrderedMap.keys_set]
      exact h.order

/-- The loop leaves the operation at a key out of flight, and no other one gets in. -/
theorem failOperation_flight (clock : String → Int) (key : String) {k : String} {o : StoredOperation R}
    (hk : (failOperation dumpSize clock result s key).operations.find? k = some o) (hd : o.dispatching = true) :
    k ≠ key ∧ s.operations.find? k = some o := by
  unfold OperationCache.failOperation at hk
  split at hk
  · next hnone =>
    refine ⟨?_, hk⟩
    rintro rfl
    rw [hnone] at hk
    cases hk
  · next operation hkey =>
    split at hk
    · next hnot =>
      refine ⟨?_, hk⟩
      rintro rfl
      rw [hkey] at hk
      cases hk
      rw [hd] at hnot
      cases hnot
    · dsimp only at hk
      rw [OrderedMap.find?_set hkey] at hk
      split at hk
      · cases hk
        cases hd
      · next hne => exact ⟨hne, hk⟩

variable (dumpSize result) in
theorem failOperations_spec (clock : String → Int) (keys : List String) (h : Exact s) :
    Exact (keys.foldl (failOperation dumpSize clock result) s) ∧
      ∀ k o, (keys.foldl (failOperation dumpSize clock result) s).operations.find? k = some o →
        o.dispatching = true → k ∉ keys ∧ s.operations.find? k = some o := by
  induction keys generalizing s with
  | nil => exact ⟨h, fun k o hk _ => ⟨by simp, hk⟩⟩
  | cons key keys ih =>
      obtain ⟨hexact, hflight⟩ := ih (h.failOperation dumpSize result clock key)
      refine ⟨hexact, fun k o hk hd => ?_⟩
      obtain ⟨hnot, hk'⟩ := hflight k o hk hd
      obtain ⟨hne, hk''⟩ := failOperation_flight clock key hk' hd
      exact ⟨by simp [hne, hnot], hk''⟩

theorem Good.failDispatching (h : Good limits s) (clock : String → Int) (nowPrune : Int) :
    Good limits (s.failDispatchingOperations dumpSize limits clock nowPrune result) := by
  obtain ⟨hexact, hflight⟩ := failOperations_spec dumpSize result clock s.operations.keys h.toExact
  have hnone : ∀ f : StoredOperation R → Nat,
      (s.operations.keys.foldl (failOperation dumpSize clock result) s).operations.sumOf (inFlight f) = 0 := by
    intro f
    rw [OrderedMap.sumOf_congr (g := fun _ => 0)]
    · simp [OrderedMap.sumOf]
    · intro k o ho
      unfold inFlight
      split
      · next hd =>
        obtain ⟨hnot, hold⟩ := hflight k o ho hd
        exact absurd (OrderedMap.mem_keys.mpr ⟨o, hold⟩) hnot
      · rfl
  exact ⟨(prune_spec limits nowPrune 0 0 hexact).1,
    FlightBounds.prune ⟨hnone _ ▸ Nat.zero_le _, hnone _ ▸ Nat.zero_le _⟩ hexact nowPrune⟩

/-! ## Any section -/

/-- The keys whose operation an event takes out of flight. -/
def Event.Settles : Event R → String → Prop
  | .remember _ _ key _ _, k => k = key
  | .complete _ _ key _, k => k = key
  | .failDispatching .., _ => True
  | _, _ => False

variable (dumpSize) in
theorem Good.step (h : Good limits s) (e : Event R) : Good limits (s.step dumpSize limits e).1 := by
  cases e with
  | lookup now key fingerprint => exact h.lookup key fingerprint now
  | reserve nowLookup nowPrune key fingerprint result => exact h.reserve nowLookup nowPrune
  | remember nowPrune nowDone key fingerprint result => exact h.remember nowPrune nowDone
  | complete nowDone nowPrune key result => exact h.complete nowDone nowPrune
  | failDispatching clock nowPrune result => exact h.failDispatching clock nowPrune
  | prune now requiredBytes requiredRecords => exact h.prune now requiredBytes requiredRecords

theorem step_keepsFlight (e : Event R) : KeepsFlight e.Settles s (s.step dumpSize limits e).1 := by
  cases e with
  | lookup now key fingerprint =>
      intro k o hk hd _
      exact lookup_operations (s := s) now ▸ (prune_shrinks ..).keeps k o hk hd
  | reserve nowLookup nowPrune key fingerprint result => exact reserve_keepsFlight nowLookup nowPrune
  | remember nowPrune nowDone key fingerprint result => exact remember_keepsFlight nowPrune nowDone
  | complete nowDone nowPrune key result => exact complete_keepsFlight nowDone nowPrune
  | failDispatching clock nowPrune result => exact fun k o _ _ hnot => absurd trivial hnot
  | prune now requiredBytes requiredRecords => exact fun k o hk hd _ => (prune_shrinks ..).keeps k o hk hd

end OperationCache

end OptionX.Bridges
