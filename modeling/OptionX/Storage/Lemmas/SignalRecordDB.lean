import OptionX.Storage.SignalRecordDB
import OptionX.Lib.Run

/-!
# The tables of SignalRecordDB

Both indexes are exact, in every state that a transaction commits. A record enters the tables only after the record
of its signal has left them, and with trade ids that no other record has.
-/

namespace OptionX.Storage

namespace SignalRecordDB

open Lib (OrderedMap Indexes)

/-- The non-zero trade ids of a record. -/
def ownedTrades (record : SignalRecord) : List UInt32 := record.tradeIds.filter (· ≠ 0)

theorem mem_ownedTrades {record : SignalRecord} {tradeId : UInt32} :
    tradeId ∈ ownedTrades record ↔ tradeId ∈ record.tradeIds ∧ tradeId ≠ 0 := by
  simp [ownedTrades]

/-- Every record is stored under its key, and the indexes are those of the records. -/
structure Coherent (msToMin : Int → Int) (db : SignalRecordDB) : Prop where
  keyed : ∀ k r, db.records.find? k = some r → k = r.compositeKey msToMin ∧ r.signalId ≠ 0
  signals : Indexes db.records (fun r => [r.signalId]) db.signalIdIndex
  trades : Indexes db.records ownedTrades db.tradeIdIndex

variable {msToMin : Int → Int} {nowMs : Int} {db : SignalRecordDB} {record : SignalRecord} {k : UInt64}
  {signalId : UInt32}

theorem compositeKey_inj {r r' : SignalRecord} (h : r.compositeKey msToMin = r'.compositeKey msToMin) :
    r.signalId = r'.signalId := by
  have := congrArg compositeKeyId h
  simpa [SignalRecord.compositeKey] using this

namespace Coherent

/-- The index entry of a signal leads to its record. -/
theorem signal (h : db.Coherent msToMin) (hk : db.signalIdIndex.find? signalId = some k) :
    ∃ r, db.records.find? k = some r ∧ r.signalId = signalId := by
  obtain ⟨r, hr, hid⟩ := (h.signals _ _).mp hk
  exact ⟨r, hr, (List.mem_singleton.mp hid).symm⟩

theorem indexed (h : db.Coherent msToMin) (hr : db.records.find? k = some record) :
    db.signalIdIndex.find? record.signalId = some k :=
  (h.signals _ _).mpr ⟨record, hr, List.mem_singleton_self _⟩

theorem owner (h : db.Coherent msToMin) {tradeId : UInt32} (hk : db.tradeIdIndex.find? tradeId = some k) :
    ∃ r, db.records.find? k = some r ∧ tradeId ∈ r.tradeIds := by
  obtain ⟨r, hr, hid⟩ := (h.trades _ _).mp hk
  exact ⟨r, hr, (mem_ownedTrades.mp hid).1⟩

/-- One record for each signal. -/
theorem same (h : db.Coherent msToMin) {k' : UInt64} {r r' : SignalRecord} (hr : db.records.find? k = some r)
    (hr' : db.records.find? k' = some r') (hid : r.signalId = r'.signalId) : k = k' ∧ r = r' := by
  have hk : k = k' := Option.some.inj ((h.indexed hr).symm.trans (hid ▸ h.indexed hr'))
  subst hk
  exact ⟨rfl, Option.some.inj (hr.symm.trans hr')⟩

theorem congr (h : db.Coherent msToMin) {db' : SignalRecordDB} (hr : db'.records = db.records)
    (hs : db'.signalIdIndex = db.signalIdIndex) (ht : db'.tradeIdIndex = db.tradeIdIndex) : db'.Coherent msToMin := by
  obtain ⟨hkeyed, hsignals, htrades⟩ := h
  exact ⟨hr ▸ hkeyed, by rw [hr, hs]; exact hsignals, by rw [hr, ht]; exact htrades⟩

end Coherent

/-! ## A record leaves the tables -/

theorem eraseIfSameSignal_find? (hr : db.records.find? k = some record) {table : OrderedMap UInt32 UInt64}
    {key : UInt32} (hown : ∀ k', table.find? key = some k' → k' = k) (i : UInt32) :
    (db.eraseIfSameSignal record table key).find? i = if i = key then none else table.find? i := by
  unfold eraseIfSameSignal
  split
  · next hnone =>
    split
    · next h => rw [h, hnone]
    · rfl
  · next composite hc =>
    rw [hown _ hc, hr]
    simp

theorem eraseTrades_find? (hr : db.records.find? k = some record) (tradeIds : List UInt32)
    {table : OrderedMap UInt32 UInt64}
    (hown : ∀ tradeId ∈ tradeIds, tradeId ≠ 0 → ∀ k', table.find? tradeId = some k' → k' = k) (i : UInt32) :
    (tradeIds.foldl
      (fun table tradeId => if tradeId = 0 then table else db.eraseIfSameSignal record table tradeId) table).find? i =
      if i ∈ tradeIds ∧ i ≠ 0 then none else table.find? i := by
  induction tradeIds generalizing table with
  | nil => simp
  | cons tradeId tradeIds ih =>
      have hrest := fun t ht => hown t (List.mem_cons_of_mem _ ht)
      rw [List.foldl_cons]
      by_cases h0 : tradeId = 0
      · rw [if_pos h0, ih hrest]
        by_cases hi : i = 0 <;> simp [hi, h0]
      · have hhead := eraseIfSameSignal_find? hr (hown tradeId List.mem_cons_self h0)
        rw [if_neg h0, ih ?_, hhead]
        · by_cases hi : i = tradeId <;> simp [hi, h0]
        · intro t ht ht0 k' hk'
          rw [hhead] at hk'
          split at hk'
          · cases hk'
          · exact hrest t ht ht0 k' hk'

/-- The indexes lose the entries of a stored record, and no others. -/
theorem removeIndexes_eq (h : db.Coherent msToMin) (hr : db.records.find? k = some record) :
    db.removeIndexes record =
      { db with
        signalIdIndex := db.signalIdIndex.eraseAll [record.signalId]
        tradeIdIndex := db.tradeIdIndex.eraseAll (ownedTrades record) } := by
  have hpos : 0 < record.signalId := UInt32.pos_iff_ne_zero.mpr (h.keyed _ _ hr).2
  have hsignals : db.eraseIfSameSignal record db.signalIdIndex record.signalId =
      db.signalIdIndex.eraseAll [record.signalId] := by
    refine OrderedMap.ext_find? fun i => ?_
    rw [eraseIfSameSignal_find? hr]
    · simp
    · intro k' hk'
      exact Option.some.inj (hk'.symm.trans (h.indexed hr))
  have htrades : record.tradeIds.foldl
      (fun table tradeId => if tradeId = 0 then table else db.eraseIfSameSignal record table tradeId)
      db.tradeIdIndex = db.tradeIdIndex.eraseAll (ownedTrades record) := by
    refine OrderedMap.ext_find? fun i => ?_
    rw [eraseTrades_find? hr]
    · simp [mem_ownedTrades]
    · intro t ht ht0 k' hk'
      obtain ⟨r', hr', hmem⟩ := (h.trades _ _).mp hk'
      exact h.trades.unique hr' hmem hr (mem_ownedTrades.mpr ⟨ht, ht0⟩)
  rw [removeIndexes, if_pos hpos, hsignals, htrades]

/-- The database without the record of a signal. -/
def forget (signalId : UInt32) (db : SignalRecordDB) : SignalRecordDB :=
  match db.signalIdIndex.find? signalId with
  | none => db
  | some k =>
      match db.records.find? k with
      | none => db
      | some record =>
          { db with
            records := db.records.erase k
            signalIdIndex := db.signalIdIndex.eraseAll [record.signalId]
            tradeIdIndex := db.tradeIdIndex.eraseAll (ownedTrades record) }

theorem forget_coherent (h : db.Coherent msToMin) (signalId : UInt32) : (db.forget signalId).Coherent msToMin := by
  unfold forget
  split
  · exact h
  · next k hk =>
    split
    · exact h
    · next r hr =>
      refine ⟨fun k' r' hr' => ?_, h.signals.erase hr, h.trades.erase hr⟩
      dsimp only at hr'
      rw [OrderedMap.find?_erase] at hr'
      split at hr'
      · cases hr'
      · exact h.keyed _ _ hr'

/-- Exactly the record of the signal is gone. -/
theorem forget_find? (h : db.Coherent msToMin) {r : SignalRecord} :
    (db.forget signalId).records.find? k = some r ↔ db.records.find? k = some r ∧ r.signalId ≠ signalId := by
  unfold forget
  split
  · next hnone =>
    refine ⟨fun hr => ⟨hr, fun hid => ?_⟩, And.left⟩
    rw [← hid, h.indexed hr] at hnone
    cases hnone
  · next k' hk' =>
    obtain ⟨r', hr', hid'⟩ := h.signal hk'
    rw [hr']
    dsimp only
    rw [OrderedMap.find?_erase]
    constructor
    · intro hr
      split at hr
      · cases hr
      · next hne => exact ⟨hr, fun hid => hne (h.same hr hr' (hid.trans hid'.symm)).1⟩
    · rintro ⟨hr, hid⟩
      rw [if_neg]
      · exact hr
      · rintro rfl
        rw [hr] at hr'
        exact hid (Option.some.inj hr' ▸ hid')

theorem forget_unindexed (h : db.Coherent msToMin) (signalId : UInt32) :
    (db.forget signalId).signalIdIndex.find? signalId = none := by
  refine (forget_coherent h signalId).signals.find?_eq_none.mpr fun k r hr hmem => ?_
  exact ((forget_find? h).mp hr).2 (List.mem_singleton.mp hmem).symm

@[simp] theorem forget_isOpen : (db.forget signalId).isOpen = db.isOpen := by
  unfold forget
  (repeat' split) <;> rfl

@[simp] theorem forget_readOnly : (db.forget signalId).readOnly = db.readOnly := by
  unfold forget
  (repeat' split) <;> rfl

@[simp] theorem forget_metaTable : (db.forget signalId).metaTable = db.metaTable := by
  unfold forget
  (repeat' split) <;> rfl

/-! ## A record enters the tables -/

/-- No trade id of the record belongs to a record of another signal. -/
def Unowned (record : SignalRecord) (db : SignalRecordDB) : Prop :=
  ∀ tradeId ∈ ownedTrades record, ∀ k r, db.records.find? k = some r → tradeId ∈ r.tradeIds →
    r.signalId = record.signalId

theorem storeRecord_eq (h : db.Coherent msToMin) (hid : record.signalId ≠ 0) :
    db.storeRecord msToMin nowMs record =
      { db with
        records := (db.forget record.signalId).records.assign (record.compositeKey msToMin) record
        signalIdIndex :=
          (db.forget record.signalId).signalIdIndex.assignAll [record.signalId] (record.compositeKey msToMin)
        tradeIdIndex :=
          (db.forget record.signalId).tradeIdIndex.assignAll (ownedTrades record) (record.compositeKey msToMin)
        metaTable := (db.metaTable.bump record.signalId).updateLastUpdate nowMs } := by
  have hpos : 0 < record.signalId := UInt32.pos_iff_ne_zero.mpr hid
  have hfold : ∀ table : OrderedMap UInt32 UInt64, ∀ k : UInt64,
      record.tradeIds.foldl (fun table tradeId => if tradeId = 0 then table else table.assign tradeId k) table =
        table.assignAll (ownedTrades record) k := by
    intro table k
    rw [OrderedMap.assignAll, ownedTrades, List.foldl_filter]
    congr 1
    funext table tradeId
    by_cases h0 : tradeId = 0 <;> simp [h0]
  unfold storeRecord forget
  cases hk : db.signalIdIndex.find? record.signalId with
  | none => simp [writeIndexes, hpos, hfold, OrderedMap.assignAll]
  | some k =>
      obtain ⟨r, hr, hrid⟩ := h.signal hk
      dsimp only
      rw [hr]
      dsimp only
      rw [removeIndexes_eq h hr]
      split
      · simp [writeIndexes, hpos, hfold, OrderedMap.assignAll]
      · next hsame =>
        have hrecords : db.records.assign (record.compositeKey msToMin) record =
            (db.records.erase k).assign (record.compositeKey msToMin) record := by
          refine OrderedMap.ext_find? fun k' => ?_
          simp only [OrderedMap.find?_assign, OrderedMap.find?_erase, not_not.mp hsame]
          split <;> simp_all
        simp [writeIndexes, hpos, hfold, OrderedMap.assignAll, hrecords]

theorem forget_free (h : db.Coherent msToMin) :
    (db.forget record.signalId).records.find? (record.compositeKey msToMin) = none := by
  cases hf : (db.forget record.signalId).records.find? (record.compositeKey msToMin) with
  | none => rfl
  | some r =>
      have hkey := ((forget_coherent h record.signalId).keyed _ _ hf).1
      exact absurd (compositeKey_inj hkey).symm ((forget_find? h).mp hf).2

theorem storeRecord_coherent (h : db.Coherent msToMin) (hid : record.signalId ≠ 0) (hun : Unowned record db) :
    (db.storeRecord msToMin nowMs record).Coherent msToMin := by
  have hforget := forget_coherent h record.signalId
  have hfree := @forget_free msToMin db record h
  rw [storeRecord_eq h hid]
  refine ⟨fun k r hr => ?_, hforget.signals.insert hfree fun i hi => ?_, hforget.trades.insert hfree fun i hi => ?_⟩
  · dsimp only at hr
    rw [OrderedMap.find?_assign] at hr
    split at hr
    · next heq =>
      obtain rfl := Option.some.inj hr
      exact ⟨heq, hid⟩
    · exact hforget.keyed _ _ hr
  · rw [List.mem_singleton.mp hi]
    exact forget_unindexed h _
  · refine hforget.trades.find?_eq_none.mpr fun k r hr hmem => ?_
    have ⟨hr', hne⟩ := (forget_find? h).mp hr
    exact hne (hun i hi k r hr' (mem_ownedTrades.mp hmem).1)

/-- The given record is stored, and those of the other signals are as before. -/
theorem storeRecord_find? (h : db.Coherent msToMin) (hid : record.signalId ≠ 0) :
    (db.storeRecord msToMin nowMs record).records.find? (record.compositeKey msToMin) = some record ∧
      ∀ k r, r.signalId ≠ record.signalId →
        ((db.storeRecord msToMin nowMs record).records.find? k = some r ↔ db.records.find? k = some r) := by
  rw [storeRecord_eq h hid]
  refine ⟨by simp, fun k r hne => ?_⟩
  dsimp only
  rw [OrderedMap.find?_assign]
  constructor
  · intro hr
    split at hr
    · exact absurd (congrArg SignalRecord.signalId (Option.some.inj hr)).symm hne
    · exact ((forget_find? h).mp hr).1
  · intro hr
    have hkey := (h.keyed _ _ hr).1
    rw [if_neg fun heq => hne (compositeKey_inj (hkey.symm.trans heq))]
    exact (forget_find? h).mpr ⟨hr, hne⟩

/-! ## What the searches find -/

theorem tradeIdConflicts_spec (h : db.Coherent msToMin) (signalId : UInt32) (tradeIds : List UInt32) :
    (db.tradeIdConflicts signalId tradeIds).1 = db ∧
      ((db.tradeIdConflicts signalId tradeIds).2 = false → ∀ tradeId ∈ tradeIds, tradeId ≠ 0 →
        ∀ k r, db.records.find? k = some r → tradeId ∈ r.tradeIds → r.signalId = signalId) := by
  induction tradeIds with
  | nil => simp [tradeIdConflicts]
  | cons tradeId tradeIds ih =>
      obtain ⟨ihdb, ihown⟩ := ih
      unfold tradeIdConflicts
      by_cases h0 : tradeId = 0
      · rw [if_pos h0]
        refine ⟨ihdb, fun hc t ht ht0 => ihown hc t ?_ ht0⟩
        rcases List.mem_cons.mp ht with rfl | ht
        · exact absurd h0 ht0
        · exact ht
      · rw [if_neg h0]
        cases hk : db.tradeIdIndex.find? tradeId with
        | none =>
            refine ⟨ihdb, fun hc t ht ht0 => ?_⟩
            rcases List.mem_cons.mp ht with rfl | ht
            · intro k r hr hmem
              exact absurd (mem_ownedTrades.mpr ⟨hmem, ht0⟩) (h.trades.find?_eq_none.mp hk k r hr)
            · exact ihown hc t ht ht0
        | some k =>
            obtain ⟨r, hr, hmem⟩ := h.owner hk
            dsimp only
            rw [hr]
            dsimp only
            split
            · next hid =>
              refine ⟨ihdb, fun hc t ht ht0 => ?_⟩
              rcases List.mem_cons.mp ht with rfl | ht
              · intro k' r' hr' hmem'
                have hkk := h.trades.unique hr (mem_ownedTrades.mpr ⟨hmem, ht0⟩) hr' (mem_ownedTrades.mpr ⟨hmem', ht0⟩)
                subst hkk
                rw [hr] at hr'
                exact Option.some.inj hr' ▸ hid
              · exact ihown hc t ht ht0
            · exact ⟨rfl, fun hc => (by cases hc)⟩

theorem findOwner_fst (h : db.Coherent msToMin) (tradeIds : List UInt32) : (findOwner tradeIds db).1 = db := by
  induction tradeIds with
  | nil => rfl
  | cons tradeId tradeIds ih =>
      unfold findOwner
      split
      · exact ih
      · cases hk : db.tradeIdIndex.find? tradeId with
        | none => exact ih
        | some k =>
            obtain ⟨r, hr, -⟩ := h.owner hk
            dsimp only
            rw [hr]

theorem findExistingSignalId_fst (h : db.Coherent msToMin) : (db.findExistingSignalId record).1 = db := by
  unfold findExistingSignalId
  split
  · rfl
  · exact findOwner_fst h _

theorem findExistingSignalId_given (h : record.signalId ≠ 0) :
    (db.findExistingSignalId record).2 = record.signalId := by
  rw [findExistingSignalId, if_pos (UInt32.pos_iff_ne_zero.mpr h)]

theorem reserveSignalId_coherent (h : db.Coherent msToMin) : db.reserveSignalId.1.Coherent msToMin := by
  unfold reserveSignalId
  dsimp only
  split
  · exact h
  · exact h.congr rfl rfl rfl

theorem reserveSignalId_records : db.reserveSignalId.1.records = db.records := by
  unfold reserveSignalId
  dsimp only
  split <;> rfl

/-- The choice of an id may move the id sequence on, and nothing else. -/
theorem selectSignalId_spec (h : db.Coherent msToMin) (record : SignalRecord) :
    (db.selectSignalId record).1.Coherent msToMin ∧ (db.selectSignalId record).1.records = db.records ∧
      (record.signalId ≠ 0 → (db.selectSignalId record).2 = record.signalId) := by
  have hdb := @findExistingSignalId_fst msToMin db record h
  unfold selectSignalId
  dsimp only
  split
  · next h0 =>
    rw [hdb]
    exact ⟨reserveSignalId_coherent h, reserveSignalId_records,
      fun hgiven => absurd (findExistingSignalId_given hgiven ▸ h0) hgiven⟩
  · rw [hdb]
    exact ⟨h, rfl, findExistingSignalId_given⟩

/-! ## The calls -/

theorem checkAndStore_failed {txn : SignalRecordDB} {r : StorageWriteResult SignalRecord} {db' : SignalRecordDB}
    (h : checkAndStore msToMin nowMs record db txn = (db', r)) (hfail : r.status ≠ .success) : db' = db := by
  unfold checkAndStore at h
  dsimp only at h
  split at h <;> cases h
  · rfl
  · exact absurd rfl hfail

/-- A record is stored once it has an id and its trade ids are its own. -/
theorem checkAndStore_stored {txn : SignalRecordDB} (h : txn.Coherent msToMin) {r : StorageWriteResult SignalRecord}
    {db' : SignalRecordDB} (hstore : checkAndStore msToMin nowMs record db txn = (db', r))
    (hok : r.status = .success) :
    r.record = record ∧ Unowned record txn ∧ db' = txn.storeRecord msToMin nowMs record := by
  obtain ⟨htxn, hown⟩ := tradeIdConflicts_spec h record.signalId record.tradeIds
  unfold checkAndStore at hstore
  dsimp only at hstore
  split at hstore
  · cases hstore
    cases hok
  · next hc =>
    cases hstore
    rw [htxn]
    refine ⟨rfl, fun t ht => ?_, rfl⟩
    have ht := mem_ownedTrades.mp ht
    exact hown (by simpa using hc) t ht.1 ht.2

theorem write_failed (hfail : (db.write msToMin nowMs record).2.status ≠ .success) :
    (db.write msToMin nowMs record).1 = db := by
  obtain ⟨⟨db', r⟩, h⟩ : ∃ p, db.write msToMin nowMs record = p := ⟨_, rfl⟩
  rw [h] at hfail ⊢
  unfold write at h
  split at h
  · cases h
    rfl
  split at h
  · cases h
    rfl
  split at h
  · cases h
    rfl
  · exact checkAndStore_failed h hfail

theorem upsert_failed (hfail : (db.upsert msToMin nowMs record).2.status ≠ .success) :
    (db.upsert msToMin nowMs record).1 = db := by
  obtain ⟨⟨db', r⟩, h⟩ : ∃ p, db.upsert msToMin nowMs record = p := ⟨_, rfl⟩
  rw [h] at hfail ⊢
  unfold upsert at h
  split at h
  · cases h
    rfl
  split at h
  · cases h
    rfl
  dsimp only at h
  split at h
  · cases h
    rfl
  · exact checkAndStore_failed h hfail

/-- What a call that stores a record does. -/
def Stores (msToMin : Int → Int) (given record : SignalRecord) (db db' : SignalRecordDB) : Prop :=
  record = { given with signalId := record.signalId } ∧ record.signalId ≠ 0 ∧
    (given.signalId ≠ 0 → record.signalId = given.signalId) ∧
    db'.records.find? (record.compositeKey msToMin) = some record ∧
    ∀ k r, r.signalId ≠ record.signalId → (db'.records.find? k = some r ↔ db.records.find? k = some r)

theorem write_stored (h : db.Coherent msToMin) (hok : (db.write msToMin nowMs record).2.status = .success) :
    (db.write msToMin nowMs record).1.Coherent msToMin ∧
      Stores msToMin record (db.write msToMin nowMs record).2.record db (db.write msToMin nowMs record).1 := by
  obtain ⟨⟨db', r⟩, hwrite⟩ : ∃ p, db.write msToMin nowMs record = p := ⟨_, rfl⟩
  rw [hwrite] at hok ⊢
  unfold write at hwrite
  split at hwrite
  · cases hwrite
    cases hok
  split at hwrite
  · cases hwrite
    cases hok
  split at hwrite
  · cases hwrite
    cases hok
  · next hid =>
    obtain ⟨hr, hun, rfl⟩ := checkAndStore_stored h hwrite hok
    rw [hr]
    exact ⟨storeRecord_coherent h hid hun, rfl, hid, fun _ => rfl, storeRecord_find? h hid⟩

theorem upsert_stored (h : db.Coherent msToMin) (hok : (db.upsert msToMin nowMs record).2.status = .success) :
    (db.upsert msToMin nowMs record).1.Coherent msToMin ∧
      Stores msToMin record (db.upsert msToMin nowMs record).2.record db (db.upsert msToMin nowMs record).1 := by
  obtain ⟨⟨db', r⟩, hupsert⟩ : ∃ p, db.upsert msToMin nowMs record = p := ⟨_, rfl⟩
  rw [hupsert] at hok ⊢
  unfold upsert at hupsert
  split at hupsert
  · cases hupsert
    cases hok
  split at hupsert
  · cases hupsert
    cases hok
  dsimp only at hupsert
  split at hupsert
  · cases hupsert
    cases hok
  · next hid =>
    obtain ⟨htxn, hrecords, hgiven⟩ := selectSignalId_spec h record
    obtain ⟨hr, hun, rfl⟩ := checkAndStore_stored htxn hupsert hok
    obtain ⟨hstored, hothers⟩ := @storeRecord_find? msToMin nowMs _
      { record with signalId := (db.selectSignalId record).2 } htxn hid
    rw [hr]
    exact ⟨storeRecord_coherent htxn hid hun, rfl, hid, hgiven, hstored, fun k r hne => by
      rw [hothers k r hne, hrecords]⟩

theorem eraseBySignalId_eq (h : db.Coherent msToMin) :
    db.eraseBySignalId nowMs signalId =
      if !db.isOpen then (db, .notOpen)
      else if db.readOnly then (db, .readOnly)
      else if signalId = 0 then (db, .invalidArgument)
      else if db.signalIdIndex.contains signalId then
        ({ db.forget signalId with metaTable := db.metaTable.updateLastUpdate nowMs }, .success)
      else (db, .notFound) := by
  unfold eraseBySignalId forget
  cases hk : db.signalIdIndex.find? signalId with
  | none => simp [OrderedMap.contains, hk]
  | some k =>
      obtain ⟨r, hr, -⟩ := h.signal hk
      simp [OrderedMap.contains, hk, hr, removeIndexes_eq h hr]

theorem eraseBySignalId_failed (h : db.Coherent msToMin) (hfail : (db.eraseBySignalId nowMs signalId).2 ≠ .success) :
    (db.eraseBySignalId nowMs signalId).1 = db := by
  rw [eraseBySignalId_eq h] at hfail ⊢
  (repeat' split) <;> simp_all

theorem eraseBySignalId_find? (h : db.Coherent msToMin) (hok : (db.eraseBySignalId nowMs signalId).2 = .success)
    {r : SignalRecord} : (db.eraseBySignalId nowMs signalId).1.records.find? k = some r ↔
      db.records.find? k = some r ∧ r.signalId ≠ signalId := by
  rw [eraseBySignalId_eq h] at hok ⊢
  split at hok
  · cases hok
  split at hok
  · cases hok
  split at hok
  · cases hok
  split at hok
  · next h1 h2 h3 h4 =>
    rw [if_neg h1, if_neg h2, if_neg h3, if_pos h4]
    exact forget_find? h
  · cases hok

theorem clear_failed (hfail : (db.clear nowMs).2 ≠ .success) : (db.clear nowMs).1 = db := by
  unfold clear at hfail ⊢
  (repeat' split) <;> simp_all

theorem getSignalId_failed (hfail : (db.getSignalId nowMs).2 = 0) : (db.getSignalId nowMs).1 = db := by
  unfold getSignalId at hfail ⊢
  dsimp only at hfail ⊢
  (repeat' split) <;> simp_all

/-- The statuses of the calls that are refused. -/
def Refused (status : StorageStatus) : Prop :=
  status = .conflict ∨ status = .sequenceExhausted ∨ status = .invalidArgument ∨ status = .readOnly

theorem Refused.ne_success {status : StorageStatus} (h : Refused status) : status ≠ .success := by
  rintro rfl
  simp [Refused] at h

theorem Coherent.upsert (h : db.Coherent msToMin) (nowMs : Int) (record : SignalRecord) :
    (db.upsert msToMin nowMs record).1.Coherent msToMin := by
  by_cases hok : (db.upsert msToMin nowMs record).2.status = .success
  · exact (upsert_stored h hok).1
  · rw [upsert_failed hok]
    exact h

theorem Coherent.write (h : db.Coherent msToMin) (nowMs : Int) (record : SignalRecord) :
    (db.write msToMin nowMs record).1.Coherent msToMin := by
  by_cases hok : (db.write msToMin nowMs record).2.status = .success
  · exact (write_stored h hok).1
  · rw [write_failed hok]
    exact h

theorem Coherent.empty : ({} : SignalRecordDB).Coherent msToMin :=
  ⟨fun k r hr => (by cases hr), .empty, .empty⟩

theorem Coherent.step (h : db.Coherent msToMin) (e : Event) : (db.step msToMin e).1.Coherent msToMin := by
  cases e with
  | upsert nowMs record => exact h.upsert nowMs record
  | write nowMs record => exact h.write nowMs record
  | eraseBySignalId nowMs signalId =>
      simp only [SignalRecordDB.step, Prod.map, id, eraseBySignalId_eq h]
      split
      · exact h
      split
      · exact h
      split
      · exact h
      split
      · exact (forget_coherent h signalId).congr rfl rfl rfl
      · exact h
  | clear nowMs =>
      simp only [SignalRecordDB.step, Prod.map, id, SignalRecordDB.clear]
      split
      · exact h
      split
      · exact h
      · exact Coherent.empty.congr rfl rfl rfl
  | getSignalId nowMs =>
      simp only [SignalRecordDB.step, Prod.map, id, SignalRecordDB.getSignalId]
      split
      · exact h
      split
      · exact h
      split
      · exact h
      · exact (reserveSignalId_coherent h).congr rfl rfl rfl
  | shutdown | reopen readOnly => exact h.congr rfl rfl rfl

end SignalRecordDB

end OptionX.Storage
