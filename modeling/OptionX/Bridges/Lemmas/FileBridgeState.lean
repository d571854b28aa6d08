import OptionX.Bridges.MetaTraderFileBridge

/-!
# What the file bridge keeps of an operation

An operation that was handed over has a record until its final result is stored, and after that a record or a tombstone until
the retention has passed. Everything that is done to the state and to its file keeps that, and what is written is read back.
-/

namespace OptionX.Bridges.MetaTraderFile

open Lib (OrderedMap)
open TradingView (Json Text text)

/-! ## The state, written and read -/

section Store

variable {F α β : Type} {file : String}

/-- Every time stamp is positive. -/
structure IdempotencyState.Stamped (state : IdempotencyState F) : Prop where
  records : ∀ storageKey record, state.records.find? storageKey = some record →
    record.createdAtMs ≠ 0 ∧ record.updatedAtMs ≠ 0
  tombstones : ∀ storageKey tombstone, state.tombstones.find? storageKey = some tombstone → tombstone.evictedAtMs ≠ 0

/-- The state without the requests whose operation is not known. -/
def IdempotencyState.indexed (state : IdempotencyState F) : IdempotencyState F :=
  { state with requestIndex := state.requestIndex.filter fun _ storageKey => state.known storageKey }

/-! ### Numbers -/

theorem readStamp_eq_ok {object : Json F} {key : String} {value result : UInt64}
    (h : object.member? (text key) = some (.unsigned value)) :
    requiredIdempotencyUint64Value object key file false = .ok result ↔ value ≠ 0 ∧ result = value := by
  rw [requiredIdempotencyUint64Value, h]
  by_cases hzero : value = 0
  · simp [hzero]
  · simp [hzero, eq_comm]

theorem bind_eq_ok {x : Except String α} {f : α → Except String β} {b : β} :
    x >>= f = .ok b ↔ ∃ a, x = .ok a ∧ f a = .ok b := by
  cases x <;> simp [bind, Except.bind]

/-! ### Maps -/

/-- The members of a written map are read exactly if each of them is. -/
theorem readMembers_eq_ok {read : Json F → Except String α} {write : α → Json F} {good : α → Prop}
    (hread : ∀ a b, read (write a) = .ok b ↔ good a ∧ b = a) (entries : List (Text × α)) (map result : OrderedMap Text α) :
    readMembers read (entries.map fun e => (e.1, write e.2)) map = .ok result ↔
      (∀ e ∈ entries, good e.2) ∧ result = map.addEntries entries := by
  induction entries generalizing map with
  | nil => simp [readMembers, eq_comm]
  | cons e entries ih =>
      rw [List.map_cons, readMembers, bind_eq_ok]
      constructor
      · rintro ⟨a, ha, hrest⟩
        obtain ⟨hgood, rfl⟩ := (hread e.2 a).mp ha
        obtain ⟨hall, rfl⟩ := (ih _).mp hrest
        exact ⟨List.forall_mem_cons.mpr ⟨hgood, hall⟩, rfl⟩
      · rintro ⟨hall, rfl⟩
        obtain ⟨hgood, hall⟩ := List.forall_mem_cons.mp hall
        exact ⟨e.2, (hread e.2 e.2).mpr ⟨hgood, rfl⟩, (ih _).mpr ⟨hall, rfl⟩⟩

theorem readSection_eq_ok {read : Json F → Except String α} {write : α → Json F} {good : α → Prop}
    (hread : ∀ a b, read (write a) = .ok b ↔ good a ∧ b = a) {document : Json F} {name : String} (file : String)
    (map : OrderedMap Text α)
    (hsection : document.member? (text name) = some (.object (map.entries.map fun e => (e.1, write e.2))))
    (result : OrderedMap Text α) :
    readSection read document name file = .ok result ↔
      (∀ key value, map.find? key = some value → good value) ∧ result = map := by
  rw [readSection, hsection]
  change readMembers read _ .empty = _ ↔ _
  rw [readMembers_eq_ok hread, OrderedMap.addEntries_entries]
  simp only [Prod.forall, OrderedMap.find?_eq_some]

theorem readRecord_recordDocument (file : String) (record result : IdempotencyRecord F) :
    readRecord file (recordDocument record) = .ok result ↔
      (record.createdAtMs ≠ 0 ∧ record.updatedAtMs ≠ 0) ∧ result = record := by
  have hcreated : (recordDocument record).member? (text "created_at_ms") = some (.unsigned record.createdAtMs) := rfl
  have hupdated : (recordDocument record).member? (text "updated_at_ms") = some (.unsigned record.updatedAtMs) := rfl
  change (do
    let createdAtMs ← requiredIdempotencyUint64Value (recordDocument record) "created_at_ms" file false
    let updatedAtMs ← requiredIdempotencyUint64Value (recordDocument record) "updated_at_ms" file false
    return ({ record with createdAtMs, updatedAtMs } : IdempotencyRecord F)) = .ok result ↔ _
  rw [bind_eq_ok]
  constructor
  · rintro ⟨created, hc, h⟩
    obtain ⟨updated, hu, hresult⟩ := bind_eq_ok.mp h
    obtain ⟨hcne, rfl⟩ := (readStamp_eq_ok hcreated).mp hc
    obtain ⟨hune, rfl⟩ := (readStamp_eq_ok hupdated).mp hu
    cases hresult
    exact ⟨⟨hcne, hune⟩, rfl⟩
  · rintro ⟨⟨hcne, hune⟩, rfl⟩
    exact ⟨_, (readStamp_eq_ok hcreated).mpr ⟨hcne, rfl⟩,
      bind_eq_ok.mpr ⟨_, (readStamp_eq_ok hupdated).mpr ⟨hune, rfl⟩, rfl⟩⟩

theorem readTombstone_tombstoneDocument (file : String) (tombstone result : IdempotencyTombstone F) :
    readTombstone file (tombstoneDocument tombstone) = .ok result ↔ tombstone.evictedAtMs ≠ 0 ∧ result = tombstone := by
  have hevicted : (tombstoneDocument tombstone).member? (text "evicted_at_ms") = some (.unsigned tombstone.evictedAtMs) :=
    rfl
  change (do
    let evictedAtMs ← requiredIdempotencyUint64Value (tombstoneDocument tombstone) "evicted_at_ms" file false
    return ({ tombstone with evictedAtMs } : IdempotencyTombstone F)) = .ok result ↔ _
  rw [bind_eq_ok]
  constructor
  · rintro ⟨evicted, he, hresult⟩
    obtain ⟨hne, rfl⟩ := (readStamp_eq_ok hevicted).mp he
    cases hresult
    exact ⟨hne, rfl⟩
  · rintro ⟨hne, rfl⟩
    exact ⟨_, (readStamp_eq_ok hevicted).mpr ⟨hne, rfl⟩, rfl⟩

theorem readIndexEntry_string (file : String) (storageKey result : Text) :
    readIndexEntry file (Json.string storageKey : Json F) = .ok result ↔ True ∧ result = storageKey := by
  simp [readIndexEntry, eq_comm]

/-- A document is read exactly if all its time stamps are positive, and then it gives the state that was written, without
the requests of unknown operations. -/
theorem readIdempotencyState_make (state result : IdempotencyState F) :
    readIdempotencyState file (some (makeIdempotencyStateDocument state)) = .ok result ↔
      state.Stamped ∧ result = state.indexed := by
  let document := makeIdempotencyStateDocument state
  have hrecords : ∀ map, readSection (readRecord file) document "records" file = .ok map ↔ _ :=
    readSection_eq_ok (readRecord_recordDocument file) file state.records rfl
  have htombstones : ∀ map, readSection (readTombstone file) document "tombstones" file = .ok map ↔ _ :=
    readSection_eq_ok (readTombstone_tombstoneDocument file) file state.tombstones rfl
  have hindex : ∀ map, readSection (readIndexEntry file) document "request_index" file = .ok map ↔ _ :=
    readSection_eq_ok (readIndexEntry_string file) file state.indexed.requestIndex rfl
  change (do
    let records ← readSection (readRecord file) document "records" file
    let tombstones ← readSection (readTombstone file) document "tombstones" file
    let requestIndex ← readSection (readIndexEntry file) document "request_index" file
    return ({ records, tombstones, requestIndex, processedThroughFileSeq := state.processedThroughFileSeq } :
      IdempotencyState F)) = .ok result ↔ _
  simp only [bind_eq_ok, hrecords, htombstones, hindex]
  constructor
  · rintro ⟨_, ⟨hrecord, rfl⟩, _, ⟨htombstone, rfl⟩, _, ⟨-, rfl⟩, hresult⟩
    cases hresult
    exact ⟨⟨hrecord, htombstone⟩, rfl⟩
  · rintro ⟨hstamped, rfl⟩
    exact ⟨_, ⟨hstamped.records, rfl⟩, _, ⟨hstamped.tombstones, rfl⟩, _, ⟨fun _ _ _ => trivial, rfl⟩, rfl⟩


end Store

/-! ## What is kept of an operation -/

open IdempotencyState

variable {F : Type} {config : MetaTraderFileBridgeConfig} {library : Library F} {state state' : IdempotencyState F}
  {disk disk' : Disk F} {pending : PendingSignalDispatch F} {signalId : Nat} {done done' : Prop}
  {read read' : UInt64 → Prop} {clock : Nat → UInt64}

/-- The clock was read twice so far apart, or it stood at zero. -/
def Outlived (retentionMs : UInt64) (read : UInt64 → Prop) : Prop :=
  ∃ evictedAtMs nowMs, read evictedAtMs ∧ read nowMs ∧
    (evictedAtMs = 0 ∨ evictedAtMs ≤ nowMs ∧ retentionMs ≤ nowMs - evictedAtMs)

/-- The operation has a record, with the first result or the final one. -/
def Recorded (config : MetaTraderFileBridgeConfig) (pending : PendingSignalDispatch F) (signalId : Nat) (done : Prop)
    (state : IdempotencyState F) : Prop :=
  ∃ record, state.records.find? pending.idempotencyStorageKey = some record ∧
    record.payloadFingerprint = pending.payloadFingerprint ∧
    (record.result = makeInDoubtResult config pending.fileSeq signalId ∨
      done ∧ record.result = acceptedResult config pending.fileSeq signalId)

/-- The operation has a tombstone with the final result. -/
def Evicted (config : MetaTraderFileBridgeConfig) (pending : PendingSignalDispatch F) (signalId : Nat)
    (read : UInt64 → Prop) (state : IdempotencyState F) : Prop :=
  state.records.find? pending.idempotencyStorageKey = none ∧
    ∃ tombstone, state.tombstones.find? pending.idempotencyStorageKey = some tombstone ∧
      tombstone.payloadFingerprint = pending.payloadFingerprint ∧
      tombstone.result = acceptedResult config pending.fileSeq signalId ∧ read tombstone.evictedAtMs

/-- The operation is known, or it was done and outlived. -/
def Kept (config : MetaTraderFileBridgeConfig) (pending : PendingSignalDispatch F) (signalId : Nat) (done : Prop)
    (read : UInt64 → Prop) (state : IdempotencyState F) : Prop :=
  Recorded config pending signalId done state ∨
    done ∧ (Evicted config pending signalId read state ∨ Outlived config.idempotencyRetentionMs read)

/-- Two states with the same operations, and with the same mark. -/
structure SameOperations (state state' : IdempotencyState F) : Prop where
  records : state'.records = state.records
  tombstones : state'.tombstones = state.tombstones
  processedThroughFileSeq : state'.processedThroughFileSeq = state.processedThroughFileSeq

theorem SameOperations.trans {middle : IdempotencyState F} (h : SameOperations middle state')
    (hfirst : SameOperations state middle) : SameOperations state state' :=
  ⟨h.records.trans hfirst.records, h.tombstones.trans hfirst.tombstones,
    h.processedThroughFileSeq.trans hfirst.processedThroughFileSeq⟩

/-- No record and no tombstone has the key. -/
def Unknown (state : IdempotencyState F) (storageKey : Text) : Prop :=
  state.records.find? storageKey = none ∧ state.tombstones.find? storageKey = none

theorem Outlived.mono {retentionMs : UInt64} (h : Outlived retentionMs read) (hread : ∀ r, read r → read' r) :
    Outlived retentionMs read' := by
  obtain ⟨evictedAtMs, nowMs, hevicted, hnow, hold⟩ := h
  exact ⟨evictedAtMs, nowMs, hread _ hevicted, hread _ hnow, hold⟩

theorem Kept.mono (h : Kept config pending signalId done read state) (hdone : done → done')
    (hread : ∀ r, read r → read' r) : Kept config pending signalId done' read' state := by
  rcases h with ⟨record, hrecord, hfingerprint, hresult⟩ | ⟨hd, ⟨hnone, tombstone, ht, hf, hr, hevicted⟩ | hout⟩
  · exact .inl ⟨record, hrecord, hfingerprint, hresult.imp_right fun ⟨hd, hr⟩ => ⟨hdone hd, hr⟩⟩
  · exact .inr ⟨hdone hd, .inl ⟨hnone, tombstone, ht, hf, hr, hread _ hevicted⟩⟩
  · exact .inr ⟨hdone hd, .inr (hout.mono hread)⟩

theorem Kept.same (h : Kept config pending signalId done read state) (hsame : SameOperations state state') :
    Kept config pending signalId done read state' := by
  unfold Kept Recorded Evicted
  rwa [hsame.records, hsame.tombstones]

/-- An operation that is not known was done and outlived. -/
theorem Kept.outlived (h : Kept config pending signalId done read state)
    (hunknown : Unknown state pending.idempotencyStorageKey) : done ∧ Outlived config.idempotencyRetentionMs read := by
  rcases h with ⟨record, hrecord, -⟩ | ⟨hd, ⟨-, tombstone, ht, -⟩ | hout⟩
  · rw [hunknown.1] at hrecord
    cases hrecord
  · rw [hunknown.2] at ht
    cases ht
  · exact ⟨hd, hout⟩

theorem isInDoubt_makeInDoubtResult (config : MetaTraderFileBridgeConfig) (fileSeq : UInt64) (signalId : Nat) :
    isInDoubt (makeInDoubtResult config fileSeq signalId : Json F) = true := by
  have hstatus : stringValue (makeInDoubtResult config fileSeq signalId : Json F) "status" = text "in_doubt" := rfl
  simp [isInDoubt, hstatus]

/-! ## Pruning -/

/-- A tombstone that is pruned was evicted long ago. -/
theorem outlived_of_isExpired {retentionMs nowMs : UInt64} {tombstone : IdempotencyTombstone F}
    (h : isExpired retentionMs nowMs tombstone = true) (hevicted : read tombstone.evictedAtMs) (hnow : read nowMs) :
    Outlived retentionMs read := by
  rw [isExpired, Bool.or_eq_true, decide_eq_true_eq, decide_eq_true_eq] at h
  rcases h with hzero | hage
  · exact ⟨_, nowMs, hevicted, hnow, .inl hzero⟩
  · unfold ageMs at hage
    split at hage
    · next hle => exact ⟨_, nowMs, hevicted, hnow, .inr ⟨hle, hage⟩⟩
    · -- Without any retention a tombstone is old at once.
      refine ⟨_, _, hevicted, hevicted, .inr ⟨UInt64.le_refl _, ?_⟩⟩
      simpa using hage

theorem Kept.prune {nowMs : UInt64} (h : Kept config pending signalId done read state) (hnow : read nowMs) :
    Kept config pending signalId done read (state.pruneExpiredTombstones config.idempotencyRetentionMs nowMs) := by
  rcases h with hrecorded | ⟨hd, ⟨hnone, tombstone, ht, hf, hr, hevicted⟩ | hout⟩
  · exact .inl hrecorded
  · cases hexpired : isExpired config.idempotencyRetentionMs nowMs tombstone with
    | true => exact .inr ⟨hd, .inr (outlived_of_isExpired hexpired hevicted hnow)⟩
    | false =>
        refine .inr ⟨hd, .inl ⟨hnone, tombstone, ?_, hf, hr, hevicted⟩⟩
        exact OrderedMap.find?_filter_eq_some.mpr ⟨ht, by simp [hexpired]⟩
  · exact .inr ⟨hd, .inr hout⟩

/-! ## Evictions -/

theorem findOldest_eq_some {oldest : Option (Text × IdempotencyRecord F)} {entries : List (Text × IdempotencyRecord F)}
    {entry : Text × IdempotencyRecord F} (h : findOldest oldest entries = some entry) :
    oldest = some entry ∨ entry ∈ entries ∧ isInDoubt entry.2.result = false := by
  induction entries generalizing oldest with
  | nil => exact .inl h
  | cons first entries ih =>
      rw [findOldest.eq_def] at h
      simp only at h
      have hrest : (entry ∈ entries ∧ isInDoubt entry.2.result = false) →
          entry ∈ first :: entries ∧ isInDoubt entry.2.result = false :=
        fun ⟨hmem, hresult⟩ => ⟨List.mem_cons_of_mem _ hmem, hresult⟩
      cases hdoubt : isInDoubt first.2.result with
      | true =>
          rw [hdoubt, if_pos rfl] at h
          exact (ih h).imp_right hrest
      | false =>
          have hhere : first = entry → entry ∈ first :: entries ∧ isInDoubt entry.2.result = false := by
            rintro rfl
            exact ⟨List.mem_cons_self, hdoubt⟩
          rw [hdoubt, if_neg (by simp)] at h
          cases oldest with
          | none =>
              rcases ih h with heq | hmem
              · exact .inr (hhere (Option.some.inj heq))
              · exact .inr (hrest hmem)
          | some old =>
              simp only at h
              rcases ih h with heq | hmem
              · split at heq
                · exact .inr (hhere (Option.some.inj heq))
                · exact .inl heq
              · exact .inr (hrest hmem)

/-- The oldest record that is not in doubt becomes a tombstone, if there is a record at all. -/
theorem eraseOldestRecord_eq_ok {nowMs : UInt64} (h : eraseOldestRecord nowMs state = .ok state') :
    state' = state ∨ ∃ storageKey record, state.records.find? storageKey = some record ∧ isInDoubt record.result = false ∧
      state' = { state with
        tombstones := state.tombstones.assign storageKey
          { payloadFingerprint := record.payloadFingerprint, result := record.result, evictedAtMs := nowMs }
        records := state.records.erase storageKey } := by
  unfold eraseOldestRecord at h
  split at h
  · cases h
    exact .inl rfl
  · split at h
    · cases h
    · next storageKey record holdest =>
      cases h
      rcases findOldest_eq_some holdest with hnone | ⟨hmem, hdoubt⟩
      · cases hnone
      · exact .inr ⟨storageKey, record, OrderedMap.find?_eq_some.mpr hmem, hdoubt, rfl⟩

theorem Kept.eraseOldest {nowMs : UInt64} (h : Kept config pending signalId done read state) (hnow : read nowMs)
    (hok : eraseOldestRecord nowMs state = .ok state') : Kept config pending signalId done read state' := by
  rcases eraseOldestRecord_eq_ok hok with rfl | ⟨storageKey, evicted, hevicted, hdoubt, rfl⟩
  · exact h
  · by_cases hkey : pending.idempotencyStorageKey = storageKey
    · subst hkey
      rcases h with ⟨record, hrecord, hfingerprint, hresult⟩ | ⟨hd, ⟨hnone, -⟩ | hout⟩
      · rw [hrecord] at hevicted
        cases hevicted
        rcases hresult with hindoubt | ⟨hd, haccepted⟩
        · rw [hindoubt, isInDoubt_makeInDoubtResult] at hdoubt
          cases hdoubt
        · let tombstone : IdempotencyTombstone F :=
            { payloadFingerprint := evicted.payloadFingerprint, result := evicted.result, evictedAtMs := nowMs }
          refine .inr ⟨hd, .inl ⟨?_, tombstone, ?_, hfingerprint, haccepted, hnow⟩⟩
          · rw [OrderedMap.find?_erase, if_pos rfl]
          · rw [OrderedMap.find?_assign, if_pos rfl]
      · rw [hnone] at hevicted
        cases hevicted
      · exact .inr ⟨hd, .inr hout⟩
    · unfold Kept Recorded Evicted at h ⊢
      simpa only [OrderedMap.find?_erase, OrderedMap.find?_assign, if_neg hkey] using h

/-! ## Writing -/

theorem bindText_eq_ok {α β : Type} {x : Except Text α} {f : α → Except Text β} {b : β} :
    x >>= f = .ok b ↔ ∃ a, x = .ok a ∧ f a = .ok b := by
  cases x <;> simp [bind, Except.bind]

theorem Kept.eraseRecords {count reading : Nat} (h : Kept config pending signalId done read state)
    (hread : ∀ i, read (clock i)) (hok : eraseRecords clock count reading state = .ok state') :
    Kept config pending signalId done read state' := by
  induction count generalizing reading state with
  | zero =>
      cases hok
      exact h
  | succ count ih =>
      obtain ⟨erased, herased, hrest⟩ := bindText_eq_ok.mp hok
      exact ih (h.eraseOldest (hread _) herased) hrest

theorem Kept.shrink {rounds reading : Nat} (h : Kept config pending signalId done read state)
    (hread : ∀ i, read (clock i)) (hok : shrink config library clock rounds reading state = .ok state') :
    Kept config pending signalId done read state' := by
  induction rounds generalizing reading state with
  | zero =>
      cases hok
      exact h
  | succ rounds ih =>
      rw [IdempotencyState.shrink] at hok
      split at hok
      · obtain ⟨erased, herased, hrest⟩ := bindText_eq_ok.mp hok
        exact ih ((h.eraseOldest (hread _) herased).prune (hread _)) hrest
      · cases hok
        exact h

theorem Kept.toWrite (h : Kept config pending signalId done read state) (hread : ∀ i, read (clock i))
    (hok : state.toWrite config library clock = .ok state') : Kept config pending signalId done read state' := by
  obtain ⟨erased, herased, hrest⟩ := bindText_eq_ok.mp hok
  obtain ⟨shrunk, hshrunk, hfits⟩ := bindText_eq_ok.mp hrest
  split at hfits
  · cases hfits
  · cases hfits
    exact ((h.prune (hread 0)).eraseRecords hread herased).shrink hread hshrunk

/-- What is in the file is read back as it is kept. -/
def FileKept (config : MetaTraderFileBridgeConfig) (pending : PendingSignalDispatch F) (signalId : Nat) (done : Prop)
    (read : UInt64 → Prop) (disk : Disk F) : Prop :=
  ∀ state, readIdempotencyState "" disk.idempotencyState = .ok state → Kept config pending signalId done read state

theorem FileKept.mono (h : FileKept config pending signalId done read disk) (hdone : done → done')
    (hread : ∀ r, read r → read' r) : FileKept config pending signalId done' read' disk :=
  fun state hstate => (h state hstate).mono hdone hread

theorem writeIdempotencyRecords_eq_ok {written : Except Text Unit}
    (hok : writeIdempotencyRecords config library clock written state disk = .ok (state', disk')) :
    state.toWrite config library clock = .ok state' ∧
      disk' = { disk with idempotencyState := some (makeIdempotencyStateDocument state') } := by
  obtain ⟨prepared, hprepared, hrest⟩ := bindText_eq_ok.mp hok
  obtain ⟨_, -, hresult⟩ := bindText_eq_ok.mp hrest
  cases hresult
  exact ⟨hprepared, rfl⟩

/-- After a write the state and its file are kept alike. -/
theorem Kept.write {written : Except Text Unit} (h : Kept config pending signalId done read state)
    (hread : ∀ i, read (clock i))
    (hok : writeIdempotencyRecords config library clock written state disk = .ok (state', disk')) :
    Kept config pending signalId done read state' ∧ FileKept config pending signalId done read disk' := by
  obtain ⟨hprepared, rfl⟩ := writeIdempotencyRecords_eq_ok hok
  have hkept := h.toWrite hread hprepared
  refine ⟨hkept, fun state hstate => ?_⟩
  obtain ⟨-, rfl⟩ := (readIdempotencyState_make _ _).mp hstate
  exact hkept.same ⟨rfl, rfl, rfl⟩

/-! ## The mark -/

theorem eraseOldestRecord_processed {nowMs : UInt64} (hok : eraseOldestRecord nowMs state = .ok state') :
    state'.processedThroughFileSeq = state.processedThroughFileSeq := by
  rcases eraseOldestRecord_eq_ok hok with rfl | ⟨storageKey, record, -, -, rfl⟩ <;> rfl

theorem eraseRecords_processed {count reading : Nat} (hok : eraseRecords clock count reading state = .ok state') :
    state'.processedThroughFileSeq = state.processedThroughFileSeq := by
  induction count generalizing reading state with
  | zero =>
      cases hok
      rfl
  | succ count ih =>
      obtain ⟨erased, herased, hrest⟩ := bindText_eq_ok.mp hok
      rw [ih hrest, eraseOldestRecord_processed herased]

theorem shrink_processed {rounds reading : Nat} (hok : shrink config library clock rounds reading state = .ok state') :
    state'.processedThroughFileSeq = state.processedThroughFileSeq := by
  induction rounds generalizing reading state with
  | zero =>
      cases hok
      rfl
  | succ rounds ih =>
      rw [IdempotencyState.shrink] at hok
      split at hok
      · obtain ⟨erased, herased, hrest⟩ := bindText_eq_ok.mp hok
        have hfirst := eraseOldestRecord_processed herased
        exact (ih hrest).trans hfirst
      · cases hok
        rfl

theorem toWrite_processed (hok : state.toWrite config library clock = .ok state') :
    state'.processedThroughFileSeq = state.processedThroughFileSeq := by
  obtain ⟨erased, herased, hrest⟩ := bindText_eq_ok.mp hok
  obtain ⟨shrunk, hshrunk, hfits⟩ := bindText_eq_ok.mp hrest
  split at hfits
  · cases hfits
  · cases hfits
    rw [shrink_processed hshrunk, eraseRecords_processed herased]
    rfl

/-! ## What a restart finds -/

/-- The file has the records and the mark of the state, and all of its tombstones. -/
structure Durable (state file : IdempotencyState F) : Prop where
  records : file.records = state.records
  processedThroughFileSeq : file.processedThroughFileSeq = state.processedThroughFileSeq
  tombstones : ∀ storageKey tombstone, state.tombstones.find? storageKey = some tombstone →
    file.tombstones.find? storageKey = some tombstone

theorem Durable.refl : Durable state state := ⟨rfl, rfl, fun _ _ h => h⟩

theorem Durable.same {file : IdempotencyState F} (h : Durable state file) (hsame : SameOperations state state') :
    Durable state' file := by
  refine ⟨h.records.trans hsame.records.symm, h.processedThroughFileSeq.trans hsame.processedThroughFileSeq.symm, ?_⟩
  rw [hsame.tombstones]
  exact h.tombstones

theorem Durable.prune {file : IdempotencyState F} {retentionMs nowMs : UInt64} (h : Durable state file) :
    Durable (state.pruneExpiredTombstones retentionMs nowMs) file :=
  ⟨h.records, h.processedThroughFileSeq, fun storageKey tombstone htombstone =>
    h.tombstones storageKey tombstone (OrderedMap.find?_filter_eq_some.mp htombstone).1⟩

/-- The state that is written is what a restart finds. -/
theorem durable_write {written : Except Text Unit}
    (hok : writeIdempotencyRecords config library clock written state disk = .ok (state', disk')) :
    ∀ file, readIdempotencyState "" disk'.idempotencyState = .ok file → Durable state' file := by
  obtain ⟨-, rfl⟩ := writeIdempotencyRecords_eq_ok hok
  intro file hfile
  obtain ⟨-, rfl⟩ := (readIdempotencyState_make _ _).mp hfile
  exact ⟨rfl, rfl, fun _ _ h => h⟩

theorem writeIdempotencyRecords_processed {written : Except Text Unit}
    (hok : writeIdempotencyRecords config library clock written state disk = .ok (state', disk')) :
    state'.processedThroughFileSeq = state.processedThroughFileSeq :=
  toWrite_processed (writeIdempotencyRecords_eq_ok hok).1

end OptionX.Bridges.MetaTraderFile
