import OptionX.Storage.TradeRecordDB
import OptionX.Lib.Run

/-!
# The tables of TradeRecordDB

The trade id index is exact in every state. The uid index is sound while the calls keep it so: what a call must not
do is said of the record that it replaces or erases.
-/

namespace OptionX.Storage

namespace TradeRecordDB

open Lib (OrderedMap Indexes)

variable {msToMin : Int → Int} {nowMs : Int} {db : TradeRecordDB} {record o : TradeRecord} {k : UInt64}
  {tradeId : UInt32}

/-- Every record is stored under its key, and the trade id index is that of the records. -/
structure Keyed (msToMin : Int → Int) (db : TradeRecordDB) : Prop where
  key : ∀ k r, db.records.find? k = some r → k = r.compositeKey msToMin ∧ r.tradeId ≠ 0
  trades : Indexes db.records (fun r => [r.tradeId]) db.tradeIdIndex

/-- The uid index leads to a record of the uid exactly when there is one. -/
structure UidIndexed (db : TradeRecordDB) : Prop where
  sound : ∀ u k, db.uidIndex.find? u = some k → 0 < u ∧ ∃ r, db.records.find? k = some r ∧ r.uniqueId = u
  complete : ∀ k r, db.records.find? k = some r → 0 < r.uniqueId → ∃ k', db.uidIndex.find? r.uniqueId = some k'

theorem compositeKey_inj {r r' : TradeRecord} (h : r.compositeKey msToMin = r'.compositeKey msToMin) :
    r.tradeId = r'.tradeId := by
  have := congrArg compositeKeyId h
  simpa [TradeRecord.compositeKey] using this

namespace Keyed

theorem indexed (h : db.Keyed msToMin) (hr : db.records.find? k = some record) :
    db.tradeIdIndex.find? record.tradeId = some k :=
  (h.trades _ _).mpr ⟨record, hr, List.mem_singleton_self _⟩

theorem trade (h : db.Keyed msToMin) (hk : db.tradeIdIndex.find? tradeId = some k) :
    ∃ r, db.records.find? k = some r ∧ r.tradeId = tradeId := by
  obtain ⟨r, hr, hid⟩ := (h.trades _ _).mp hk
  exact ⟨r, hr, (List.mem_singleton.mp hid).symm⟩

/-- One record for each trade. -/
theorem same (h : db.Keyed msToMin) {k' : UInt64} {r r' : TradeRecord} (hr : db.records.find? k = some r)
    (hr' : db.records.find? k' = some r') (hid : r.tradeId = r'.tradeId) : k = k' ∧ r = r' := by
  have hk : k = k' := Option.some.inj ((h.indexed hr).symm.trans (hid ▸ h.indexed hr'))
  subst hk
  exact ⟨rfl, Option.some.inj (hr.symm.trans hr')⟩

theorem congr (h : db.Keyed msToMin) {db' : TradeRecordDB} (hr : db'.records = db.records)
    (ht : db'.tradeIdIndex = db.tradeIdIndex) : db'.Keyed msToMin := by
  obtain ⟨hkey, htrades⟩ := h
  exact ⟨hr ▸ hkey, by rw [hr, ht]; exact htrades⟩

theorem empty : ({} : TradeRecordDB).Keyed msToMin := ⟨fun k r hr => (by cases hr), .empty⟩

/-- The tables after a record is stored, where no record of its trade was. -/
theorem insert (h : db.Keyed msToMin) (hid : record.tradeId ≠ 0) (hnew : db.tradeIdIndex.find? record.tradeId = none)
    {db' : TradeRecordDB} (hr : db'.records = db.records.assign (record.compositeKey msToMin) record)
    (ht : db'.tradeIdIndex = db.tradeIdIndex.assign record.tradeId (record.compositeKey msToMin)) :
    db'.Keyed msToMin := by
  have hfree : db.records.find? (record.compositeKey msToMin) = none := by
    cases hf : db.records.find? (record.compositeKey msToMin) with
    | none => rfl
    | some r =>
        have hkey := h.indexed hf
        rw [← compositeKey_inj (h.key _ _ hf).1, hnew] at hkey
        cases hkey
  refine ⟨fun k r hk => ?_, ?_⟩
  · rw [hr, OrderedMap.find?_assign] at hk
    split at hk
    · next heq =>
      obtain rfl := Option.some.inj hk
      exact ⟨heq, hid⟩
    · exact h.key _ _ hk
  · rw [hr, ht]
    exact h.trades.insert hfree fun i hi => by rw [List.mem_singleton.mp hi]; exact hnew

/-- The tables after a record has left them. -/
theorem erase (h : db.Keyed msToMin) (hk : db.records.find? k = some record) {db' : TradeRecordDB}
    (hr : db'.records = db.records.erase k) (ht : db'.tradeIdIndex = db.tradeIdIndex.erase record.tradeId) :
    db'.Keyed msToMin := by
  refine ⟨fun k' r hk' => ?_, ?_⟩
  · rw [hr, OrderedMap.find?_erase] at hk'
    split at hk'
    · cases hk'
    · exact h.key _ _ hk'
  · rw [hr, ht]
    exact h.trades.erase hk

end Keyed

/-! ## Storing a record -/

theorem storeRecord_keyed (h : db.Keyed msToMin) (hid : record.tradeId ≠ 0) :
    (db.storeRecord msToMin nowMs record).Keyed msToMin := by
  cases hk : db.tradeIdIndex.find? record.tradeId with
  | none => exact h.insert hid hk (by simp [storeRecord, hk]) (by simp [storeRecord, hk])
  | some k =>
      obtain ⟨o, ho, hoid⟩ := h.trade hk
      have herased : Keyed msToMin
          { db with records := db.records.erase k, tradeIdIndex := db.tradeIdIndex.erase record.tradeId } :=
        h.erase ho rfl (by rw [hoid])
      refine herased.insert hid (by simp) ?_ ?_
      · refine OrderedMap.ext_find? fun k' => ?_
        by_cases hkey : k = record.compositeKey msToMin
        · simp [storeRecord, hk, hkey]
          split <;> rfl
        · simp [storeRecord, hk, hkey]
      · refine OrderedMap.ext_find? fun i => ?_
        by_cases hkey : k = record.compositeKey msToMin <;> simp [storeRecord, hk, hkey] <;> split <;> rfl

/-- The records after one is stored: the one of its trade is replaced. -/
theorem storeRecord_find? (h : db.Keyed msToMin) {r : TradeRecord} :
    (db.storeRecord msToMin nowMs record).records.find? k = some r ↔
      (k = record.compositeKey msToMin ∧ r = record) ∨
        db.records.find? k = some r ∧ r.tradeId ≠ record.tradeId := by
  have hrecords : (db.storeRecord msToMin nowMs record).records.find? k =
      if k = record.compositeKey msToMin then some record
      else if db.tradeIdIndex.find? record.tradeId = some k then none else db.records.find? k := by
    cases hk : db.tradeIdIndex.find? record.tradeId with
    | none => simp [storeRecord, hk]
    | some k' =>
        by_cases hkey : k' = record.compositeKey msToMin
        · by_cases hk' : k = record.compositeKey msToMin <;> simp [storeRecord, hk, hkey, hk', eq_comm]
        · simp [storeRecord, hk, hkey, eq_comm]
  rw [hrecords]
  constructor
  · intro hr
    split at hr
    · next heq => exact .inl ⟨heq, (Option.some.inj hr).symm⟩
    split at hr
    · cases hr
    · next hne => exact .inr ⟨hr, fun hid => hne (hid ▸ h.indexed hr)⟩
  · rintro (⟨rfl, rfl⟩ | ⟨hr, hid⟩)
    · simp
    · rw [if_neg fun heq => hid (compositeKey_inj ((h.key _ _ hr).1.symm.trans heq)), if_neg]
      · exact hr
      · intro hk
        obtain ⟨r', hr', hid'⟩ := h.trade hk
        rw [hr] at hr'
        exact hid (Option.some.inj hr' ▸ hid')

theorem storeRecord_uid_new (hk : db.tradeIdIndex.find? record.tradeId = none) (u : Int) :
    (db.storeRecord msToMin nowMs record).uidIndex.find? u =
      if 0 < record.uniqueId ∧ u = record.uniqueId then some (record.compositeKey msToMin)
      else db.uidIndex.find? u := by
  by_cases hpos : 0 < record.uniqueId <;> simp [storeRecord, hk, hpos]

/-- The call gives a record another uid. -/
def ChangesUid (record o : TradeRecord) : Prop := 0 < o.uniqueId ∧ o.uniqueId ≠ record.uniqueId

theorem storeRecord_uid (h : db.Keyed msToMin) (ho : db.records.find? k = some o) (hid : o.tradeId = record.tradeId)
    (u : Int) :
    (db.storeRecord msToMin nowMs record).uidIndex.find? u =
      if 0 < record.uniqueId ∧ u = record.uniqueId then some (record.compositeKey msToMin)
      else if k ≠ record.compositeKey msToMin ∧ 0 < o.uniqueId ∧ o.uniqueId ≠ record.uniqueId ∧ u = o.uniqueId then none
      else db.uidIndex.find? u := by
  have hk := hid ▸ h.indexed ho
  by_cases hpos : 0 < record.uniqueId <;> by_cases hkey : k = record.compositeKey msToMin
  · simp [storeRecord, hk, hkey, hpos]
  · by_cases hc : 0 < o.uniqueId ∧ o.uniqueId ≠ record.uniqueId
    · simp [storeRecord, hk, hkey, hpos, ho, hc]
    · rw [if_neg (c := k ≠ _ ∧ _) (by tauto)]
      simp [storeRecord, hk, hkey, hpos, ho, if_neg hc, -ne_eq, -not_and]
  · simp [storeRecord, hk, hkey, hpos]
  · by_cases hc : 0 < o.uniqueId ∧ o.uniqueId ≠ record.uniqueId
    · simp [storeRecord, hk, hkey, hpos, ho, hc]
    · rw [if_neg (c := k ≠ _ ∧ _) (by tauto)]
      simp [storeRecord, hk, hkey, hpos, ho, if_neg hc, -ne_eq, -not_and]

/-- No other stored record has the uid of a record. -/
def OnlyOne (o : TradeRecord) (db : TradeRecordDB) : Prop :=
  ∀ k r, db.records.find? k = some r → r.uniqueId = o.uniqueId → r.tradeId = o.tradeId

/-- A stored record gives up its uid and nothing is lost: where it stays under its key the index entry belongs to
another record, and where it moves no other record has the uid. -/
def UidKept (msToMin : Int → Int) (record o : TradeRecord) (db : TradeRecordDB) : Prop :=
  ChangesUid record o →
    if o.compositeKey msToMin = record.compositeKey msToMin then
      db.uidIndex.find? o.uniqueId ≠ some (o.compositeKey msToMin)
    else OnlyOne o db

theorem storeRecord_indexed (h : db.Keyed msToMin) (hu : db.UidIndexed)
    (hkept : ∀ k o, db.records.find? k = some o → o.tradeId = record.tradeId → UidKept msToMin record o db) :
    (db.storeRecord msToMin nowMs record).UidIndexed := by
  cases hk : db.tradeIdIndex.find? record.tradeId with
  | none =>
      have hother : ∀ k r, db.records.find? k = some r → r.tradeId ≠ record.tradeId := by
        intro k r hr hid
        rw [← hid, h.indexed hr] at hk
        cases hk
      refine ⟨fun u k hu' => ?_, fun k r hr hpos => ?_⟩
      · rw [storeRecord_uid_new hk] at hu'
        split at hu'
        · next hc =>
          obtain rfl := Option.some.inj hu'
          exact ⟨hc.2 ▸ hc.1, record, (storeRecord_find? h).mpr (.inl ⟨rfl, rfl⟩), hc.2.symm⟩
        · obtain ⟨hpos, r, hr, hru⟩ := hu.sound u k hu'
          exact ⟨hpos, r, (storeRecord_find? h).mpr (.inr ⟨hr, hother k r hr⟩), hru⟩
      · rw [storeRecord_uid_new hk]
        split
        · exact ⟨_, rfl⟩
        · next hc =>
          rcases (storeRecord_find? h).mp hr with ⟨-, rfl⟩ | ⟨hr, -⟩
          · exact absurd ⟨hpos, rfl⟩ hc
          · exact hu.complete k r hr hpos
  | some k₀ =>
      obtain ⟨o, ho, hoid⟩ := h.trade hk
      have hkept := hkept k₀ o ho hoid
      have hkey := (h.key _ _ ho).1
      refine ⟨fun u k hu' => ?_, fun k r hr hpos => ?_⟩
      · rw [storeRecord_uid h ho hoid] at hu'
        split at hu'
        · next hc =>
          obtain rfl := Option.some.inj hu'
          exact ⟨hc.2 ▸ hc.1, record, (storeRecord_find? h).mpr (.inl ⟨rfl, rfl⟩), hc.2.symm⟩
        split at hu'
        · cases hu'
        · next hc he =>
          obtain ⟨hpos, r, hr, hru⟩ := hu.sound u k hu'
          refine ⟨hpos, r, (storeRecord_find? h).mpr (.inr ⟨hr, fun hid => ?_⟩), hru⟩
          -- The entry would be that of the replaced record: it has been erased or it is said to be another's.
          obtain ⟨rfl, rfl⟩ := h.same hr ho (hid.trans hoid.symm)
          have hchanges : ChangesUid record r :=
            ⟨hru ▸ hpos, fun heq => hc ⟨heq ▸ hru ▸ hpos, hru.symm.trans heq⟩⟩
          have hkept := hkept hchanges
          rw [← hkey] at hkept
          split at hkept
          · exact hkept (hru ▸ hu')
          · next hne => exact he ⟨hne, hchanges.1, hchanges.2, hru.symm⟩
      · rw [storeRecord_uid h ho hoid]
        split
        · exact ⟨_, rfl⟩
        · next hc =>
          rcases (storeRecord_find? h).mp hr with ⟨-, rfl⟩ | ⟨hr, hid⟩
          · exact absurd ⟨hpos, rfl⟩ hc
          · rw [if_neg]
            · exact hu.complete k r hr hpos
            · rintro ⟨hne, hpos', hne', heq⟩
              have hkept := hkept ⟨hpos', hne'⟩
              rw [← hkey, if_neg hne] at hkept
              exact hid ((hkept k r hr heq).trans hoid)

/-! ## What the uid index promises -/

/-- A search for a positive uid succeeds whenever a stored record has it, and no entry of the index points to a record
of another uid. -/
structure UidFound (db : TradeRecordDB) : Prop where
  found : db.isOpen = true → ∀ k r, db.records.find? k = some r → 0 < r.uniqueId →
    (db.findByUid r.uniqueId).status = .success ∧ (db.findByUid r.uniqueId).record.uniqueId = r.uniqueId ∧
      ∃ k', db.records.find? k' = some (db.findByUid r.uniqueId).record
  sound : ∀ u k r, db.uidIndex.find? u = some k → db.records.find? k = some r → r.uniqueId = u

theorem UidIndexed.uidFound (h : db.UidIndexed) : db.UidFound := by
  refine ⟨fun hopen k r hr hpos => ?_, fun u k r hu hr => ?_⟩
  · obtain ⟨k', hk'⟩ := h.complete k r hr hpos
    obtain ⟨-, r', hr', hru⟩ := h.sound _ _ hk'
    have hfind : db.findByUid r.uniqueId = { status := .success, record := r', found := true } := by
      simp [findByUid, hopen, hk', hr', hru, hpos]
    rw [hfind]
    exact ⟨rfl, hru, k', hr'⟩
  · obtain ⟨-, r', hr', hru⟩ := h.sound u k hu
    rw [hr] at hr'
    exact Option.some.inj hr' ▸ hru

/-- A search that succeeds has an entry to go by. -/
theorem UidFound.entry (h : db.UidFound) (hopen : db.isOpen = true) {r : TradeRecord}
    (hr : db.records.find? k = some r) (hpos : 0 < r.uniqueId) : ∃ k', db.uidIndex.find? r.uniqueId = some k' := by
  have hstatus := (h.found hopen k r hr hpos).1
  cases hk : db.uidIndex.find? r.uniqueId with
  | some k' => exact ⟨k', rfl⟩
  | none => simp [findByUid, hopen, hk, not_le.mpr hpos, readError] at hstatus

@[simp] theorem storeRecord_isOpen : (db.storeRecord msToMin nowMs record).isOpen = db.isOpen := by
  unfold storeRecord
  dsimp only
  (repeat' split) <;> rfl

/-- What a call that stores a record must do for the uid index to keep its promise. -/
theorem storeRecord_kept (h : db.Keyed msToMin) (hopen : db.isOpen = true)
    (hfound : (db.storeRecord msToMin nowMs record).UidFound) (ho : db.records.find? k = some o)
    (hid : o.tradeId = record.tradeId) : UidKept msToMin record o db := by
  rintro ⟨hpos, hne⟩
  have hkey := (h.key _ _ ho).1
  rw [← hkey]
  have hnot : ¬ (0 < record.uniqueId ∧ o.uniqueId = record.uniqueId) := fun hc => hne hc.2
  split
  · next hsame =>
    intro hentry
    have hentry' : (db.storeRecord msToMin nowMs record).uidIndex.find? o.uniqueId = some k := by
      rw [storeRecord_uid h ho hid, if_neg hnot, if_neg fun hc => hc.1 hsame, hentry]
    exact hne (hfound.sound _ _ record hentry' ((storeRecord_find? h).mpr (.inl ⟨hsame, rfl⟩))).symm
  · next hmoved =>
    intro k' r hr hru
    by_contra hother
    have hr' : (db.storeRecord msToMin nowMs record).records.find? k' = some r :=
      (storeRecord_find? h).mpr (.inr ⟨hr, fun heq => hother (heq.trans hid.symm)⟩)
    obtain ⟨k'', hk''⟩ := hfound.entry (by simpa using hopen) hr' (hru ▸ hpos)
    rw [hru, storeRecord_uid h ho hid, if_neg hnot, if_pos ⟨hmoved, hpos, hne, rfl⟩] at hk''
    cases hk''

/-! ## Erasing a record -/

theorem eraseByTradeId_eq (h : db.Keyed msToMin) (ho : db.records.find? k = some o) (hopen : db.isOpen = true)
    (hw : db.readOnly = false) :
    (db.eraseByTradeId nowMs o.tradeId).1 =
      { db with
        uidIndex := if 0 < o.uniqueId then db.uidIndex.erase o.uniqueId else db.uidIndex
        records := db.records.erase k
        tradeIdIndex := db.tradeIdIndex.erase o.tradeId
        metaTable := db.metaTable.updateLastUpdate nowMs } := by
  simp [eraseByTradeId, hopen, hw, (h.key _ _ ho).2, h.indexed ho, ho]

theorem erased_find? (h : db.Keyed msToMin) (ho : db.records.find? k = some o) {k' : UInt64} {r : TradeRecord} :
    (db.records.erase k).find? k' = some r ↔ db.records.find? k' = some r ∧ r.tradeId ≠ o.tradeId := by
  rw [OrderedMap.find?_erase]
  constructor
  · intro hr
    split at hr
    · cases hr
    · next hne => exact ⟨hr, fun hid => hne (h.same hr ho hid).1⟩
  · rintro ⟨hr, hid⟩
    rw [if_neg]
    · exact hr
    · rintro rfl
      rw [hr] at ho
      exact hid (Option.some.inj ho ▸ rfl)

theorem erased_uid (u : Int) :
    (if 0 < o.uniqueId then db.uidIndex.erase o.uniqueId else db.uidIndex).find? u =
      if 0 < o.uniqueId ∧ u = o.uniqueId then none else db.uidIndex.find? u := by
  by_cases hpos : 0 < o.uniqueId <;> simp [hpos]

theorem erased_indexed (h : db.Keyed msToMin) (hu : db.UidIndexed) (ho : db.records.find? k = some o)
    (hkept : 0 < o.uniqueId → OnlyOne o db) {db' : TradeRecordDB} (hr : db'.records = db.records.erase k)
    (hu' : db'.uidIndex = if 0 < o.uniqueId then db.uidIndex.erase o.uniqueId else db.uidIndex) :
    db'.UidIndexed := by
  refine ⟨fun u k' he => ?_, fun k' r he hpos => ?_⟩
  · rw [hu', erased_uid] at he
    split at he
    · cases he
    · next hc =>
      obtain ⟨hpos, r, hr', hru⟩ := hu.sound u k' he
      refine ⟨hpos, r, hr ▸ (erased_find? h ho).mpr ⟨hr', fun hid => hc ?_⟩, hru⟩
      obtain ⟨-, rfl⟩ := h.same hr' ho hid
      exact ⟨hru ▸ hpos, hru.symm⟩
  · rw [hr] at he
    obtain ⟨he, hid⟩ := (erased_find? h ho).mp he
    rw [hu', erased_uid, if_neg fun hc => hid (hkept hc.1 k' r he hc.2)]
    exact hu.complete k' r he hpos

theorem erased_kept (h : db.Keyed msToMin) (hopen : db.isOpen = true) (ho : db.records.find? k = some o)
    {db' : TradeRecordDB} (hr : db'.records = db.records.erase k)
    (hu' : db'.uidIndex = if 0 < o.uniqueId then db.uidIndex.erase o.uniqueId else db.uidIndex)
    (hopen' : db'.isOpen = db.isOpen) (hfound : db'.UidFound) (hpos : 0 < o.uniqueId) : OnlyOne o db := by
  intro k' r hr' hru
  by_contra hother
  obtain ⟨k'', hk''⟩ := hfound.entry (hopen'.trans hopen) (hr ▸ (erased_find? h ho).mpr ⟨hr', hother⟩) (hru ▸ hpos)
  rw [hu', erased_uid, if_pos ⟨hpos, hru⟩] at hk''
  cases hk''

/-! ## The trade that an upsert selects -/

/-- The call is given the id of this stored record, or it is given none, no stored record has its uid, and this one is
the first of its broker identity. -/
def Replaces (record o : TradeRecord) (db : TradeRecordDB) : Prop :=
  if record.tradeId ≠ 0 then o.tradeId = record.tradeId
  else
    (∀ k r, db.records.find? k = some r → 0 < record.uniqueId → r.uniqueId ≠ record.uniqueId) ∧
      db.records.values.find? record.sameBrokerIdentity = some o

/-- The same tables of records and indexes. -/
structure SameTables (db db' : TradeRecordDB) : Prop where
  records : db'.records = db.records
  uidIndex : db'.uidIndex = db.uidIndex
  tradeIdIndex : db'.tradeIdIndex = db.tradeIdIndex
  isOpen : db'.isOpen = db.isOpen

theorem SameTables.refl : SameTables db db := ⟨rfl, rfl, rfl, rfl⟩

theorem SameTables.keyed {db' : TradeRecordDB} (h : SameTables db db') (hk : db.Keyed msToMin) : db'.Keyed msToMin :=
  hk.congr h.records h.tradeIdIndex

theorem SameTables.uidIndexed {db' : TradeRecordDB} (h : SameTables db db') (hu : db.UidIndexed) : db'.UidIndexed := by
  obtain ⟨hsound, hcomplete⟩ := hu
  exact ⟨by rw [h.records, h.uidIndex]; exact hsound, by rw [h.records, h.uidIndex]; exact hcomplete⟩

theorem reserveTradeId_tables : SameTables db db.reserveTradeId.1 := by
  unfold reserveTradeId
  dsimp only
  split
  · exact .refl
  · exact ⟨rfl, rfl, rfl, rfl⟩

theorem reserveTradeId_new (h : db.Keyed msToMin) (ho : db.records.find? k = some o) :
    o.tradeId ≠ db.reserveTradeId.2 := by
  have hindexed := h.indexed ho
  have h0 := (h.key _ _ ho).2
  intro hid
  unfold reserveTradeId at hid
  dsimp only at hid
  split at hid
  · exact h0 hid
  · next hne =>
    have hfree := Meta.freeId_free hne
    rw [hid, OrderedMap.contains_eq_false.mp hfree] at hindexed
    cases hindexed

theorem findUid_spec (hk : db.Keyed msToMin) (hu : db.UidIndexed) (record : TradeRecord) :
    (db.findUid record).1 = db ∧
      (record.tradeId = 0 → (db.findUid record).2 ≠ 0 →
        ∃ k o, db.records.find? k = some o ∧ o.tradeId = (db.findUid record).2 ∧
          0 < record.uniqueId ∧ o.uniqueId = record.uniqueId) ∧
      ((db.findUid record).2 = 0 → record.tradeId = 0 ∧
        ∀ k r, db.records.find? k = some r → 0 < record.uniqueId → r.uniqueId ≠ record.uniqueId) ∧
      (record.tradeId ≠ 0 → (db.findUid record).2 = record.tradeId) := by
  unfold findUid
  split
  · next hc =>
    cases hentry : db.uidIndex.find? record.uniqueId with
    | none =>
        refine ⟨rfl, fun _ h => absurd rfl h, fun _ => ⟨hc.1, fun k r hr hpos hru => ?_⟩, fun h => absurd hc.1 h⟩
        obtain ⟨k', hk'⟩ := hu.complete k r hr (hru ▸ hpos)
        rw [hru, hentry] at hk'
        cases hk'
    | some k =>
        obtain ⟨-, o, ho, hou⟩ := hu.sound _ _ hentry
        dsimp only
        rw [ho]
        exact ⟨rfl, fun _ _ => ⟨k, o, ho, rfl, hc.2, hou⟩, fun h0 => absurd h0 (hk.key _ _ ho).2,
          fun h => absurd hc.1 h⟩
  · next hc =>
    exact ⟨rfl, fun h0 h => absurd h0 h, fun h0 => ⟨h0, fun k r _ hpos => absurd ⟨h0, hpos⟩ hc⟩, fun _ => rfl⟩

theorem sameBrokerIdentity_has {other : TradeRecord} (h : record.sameBrokerIdentity other = true) :
    record.hasBrokerIdentity = true := by
  by_contra hnot
  simp [TradeRecord.sameBrokerIdentity, hnot] at h

theorem findBrokerIdentityKey_some (h : db.records.values.find? record.sameBrokerIdentity = some o) :
    db.findBrokerIdentityKey record = o.tradeId := by
  rw [findBrokerIdentityKey, h]

/-- Which stored record an upsert replaces: one of its uid, or the one that it is said to replace. -/
theorem selectTradeId_spec (hk : db.Keyed msToMin) (hu : db.UidIndexed) (record : TradeRecord) :
    SameTables db (db.selectTradeId record).1 ∧
      (∀ k o, db.records.find? k = some o → o.tradeId = (db.selectTradeId record).2 →
        Replaces record o db ∨ record.tradeId = 0 ∧ 0 < record.uniqueId ∧ o.uniqueId = record.uniqueId) ∧
      ∀ k o, db.records.find? k = some o → Replaces record o db → o.tradeId = (db.selectTradeId record).2 := by
  obtain ⟨hdb, hfound, hnone, hgiven⟩ := findUid_spec hk hu record
  unfold selectTradeId
  dsimp only
  rw [hdb]
  by_cases h0 : (db.findUid record).2 = 0
  · obtain ⟨hid, hother⟩ := hnone h0
    have hreplaces : ∀ o, Replaces record o db ↔ db.records.values.find? record.sameBrokerIdentity = some o := by
      intro o
      rw [Replaces, if_neg (not_not.mpr hid)]
      exact and_iff_right hother
    simp only [h0, true_and]
    cases hrow : db.records.values.find? record.sameBrokerIdentity with
    | some row =>
        obtain ⟨k, hrow'⟩ := OrderedMap.mem_values.mp (List.mem_of_find?_eq_some hrow)
        have hhas := sameBrokerIdentity_has (List.find?_some hrow)
        have hkey := findBrokerIdentityKey_some hrow
        have hne := (hk.key _ _ hrow').2
        simp only [hhas, if_true, hkey, hne, if_false]
        refine ⟨.refl, fun k' o ho hid' => .inl ((hreplaces o).mpr ?_), fun k' o ho hr => ?_⟩
        · rw [(hk.same ho hrow' hid').2, hrow]
        · have := hrow.symm.trans ((hreplaces o).mp hr)
          rw [Option.some.inj this]
    | none =>
        have hkey : db.findBrokerIdentityKey record = 0 := by rw [findBrokerIdentityKey, hrow]
        have hzero : (if record.hasBrokerIdentity = true then (db, db.findBrokerIdentityKey record)
            else db.findUid record) = (db, 0) := by
          split
          · rw [hkey]
          · exact Prod.ext hdb h0
        rw [hzero]
        simp only [if_true]
        refine ⟨reserveTradeId_tables, fun k o ho hid' => absurd hid' (reserveTradeId_new hk ho), fun k o ho hr => ?_⟩
        have := hrow.symm.trans ((hreplaces o).mp hr)
        cases this
  · simp only [h0, false_and, if_false]
    refine ⟨by rw [hdb]; exact .refl, fun k o ho hid' => ?_, fun k o ho hr => ?_⟩
    · by_cases hid : record.tradeId = 0
      · obtain ⟨k', o', ho', hid'', hpos, hou⟩ := hfound hid h0
        obtain ⟨-, rfl⟩ := hk.same ho ho' (hid'.trans hid''.symm)
        exact .inr ⟨hid, hpos, hou⟩
      · refine .inl ?_
        rw [Replaces, if_pos hid]
        exact hid'.trans (hgiven hid)
    · by_cases hid : record.tradeId = 0
      · obtain ⟨k', o', ho', -, hpos, hou⟩ := hfound hid h0
        rw [Replaces, if_neg (not_not.mpr hid)] at hr
        exact absurd hou (hr.1 k' o' ho' hpos)
      · rw [Replaces, if_pos hid] at hr
        exact hr.trans (hgiven hid).symm

/-! ## One call -/

/-- The call does not take an entry of the uid index from a record that needs it, nor leave one to a record of
another uid. -/
def Keeps (msToMin : Int → Int) (db : TradeRecordDB) : Event → Prop
  | .upsert _ record => db.isOpen = true → db.readOnly = false → ∀ k o, db.records.find? k = some o →
      Replaces record o db → UidKept msToMin { record with tradeId := o.tradeId } o db
  | .write _ record => db.isOpen = true → db.readOnly = false → record.tradeId ≠ 0 → ∀ k o,
      db.records.find? k = some o → o.tradeId = record.tradeId → UidKept msToMin record o db
  | .eraseByTradeId _ tradeId => db.isOpen = true → db.readOnly = false → ∀ k o, db.records.find? k = some o →
      o.tradeId = tradeId → 0 < o.uniqueId → OnlyOne o db
  | .clear _ | .getTradeId _ | .shutdown | .reopen _ => True

theorem UidIndexed.congr (hu : db.UidIndexed) {db' : TradeRecordDB} (hr : db'.records = db.records)
    (hi : db'.uidIndex = db.uidIndex) : db'.UidIndexed := by
  obtain ⟨hsound, hcomplete⟩ := hu
  exact ⟨by rw [hr, hi]; exact hsound, by rw [hr, hi]; exact hcomplete⟩

theorem UidIndexed.empty : ({} : TradeRecordDB).UidIndexed :=
  ⟨fun u k h => (by cases h), fun k r h => (by cases h)⟩

/-- Where the tables have no record of the trade that is selected, none is replaced. -/
theorem upsert_keeps (hk : db.Keyed msToMin) (hu : db.UidIndexed)
    (hkeeps : ∀ k o, db.records.find? k = some o → Replaces record o db →
      UidKept msToMin { record with tradeId := o.tradeId } o db) :
    ∀ k o, (db.selectTradeId record).1.records.find? k = some o → o.tradeId = (db.selectTradeId record).2 →
      UidKept msToMin { record with tradeId := (db.selectTradeId record).2 } o (db.selectTradeId record).1 := by
  obtain ⟨htables, hselected, -⟩ := selectTradeId_spec hk hu record
  intro k o ho hid
  rw [htables.records] at ho
  have hdb : UidKept msToMin { record with tradeId := (db.selectTradeId record).2 } o db := by
    rcases hselected k o ho hid with hr | ⟨-, -, hou⟩
    · exact hid ▸ hkeeps k o ho hr
    · exact fun hc => absurd hou hc.2
  unfold UidKept OnlyOne at hdb ⊢
  rw [htables.uidIndex, htables.records]
  exact hdb

/-- The searches of `upsert` leave the records and their ids as they are. -/
theorem findUid_tables : (db.findUid record).1.records = db.records ∧
    (db.findUid record).1.tradeIdIndex = db.tradeIdIndex ∧ (db.findUid record).1.metaTable = db.metaTable := by
  unfold findUid
  split
  · cases db.uidIndex.find? record.uniqueId with
    | none => exact ⟨rfl, rfl, rfl⟩
    | some k =>
        dsimp only
        cases db.records.find? k <;> exact ⟨rfl, rfl, rfl⟩
  · exact ⟨rfl, rfl, rfl⟩

theorem selectTradeId_keyed (hk : db.Keyed msToMin) (record : TradeRecord) :
    (db.selectTradeId record).1.Keyed msToMin := by
  have hfound : (db.findUid record).1.Keyed msToMin := hk.congr findUid_tables.1 findUid_tables.2.1
  unfold selectTradeId
  dsimp only
  split <;> split
  · exact reserveTradeId_tables.keyed hfound
  · exact hfound
  · exact reserveTradeId_tables.keyed hfound
  · exact hfound

theorem Keyed.step (hk : db.Keyed msToMin) (e : Event) : (db.step msToMin e).1.Keyed msToMin := by
  cases e with
  | upsert nowMs record =>
      simp only [TradeRecordDB.step, Prod.map, id, TradeRecordDB.upsert]
      split
      · exact hk
      split
      · exact hk
      split
      · exact hk
      · next hid => exact storeRecord_keyed (selectTradeId_keyed hk record) hid
  | write nowMs record =>
      simp only [TradeRecordDB.step, Prod.map, id, TradeRecordDB.write]
      split
      · exact hk
      split
      · exact hk
      split
      · exact hk
      · next hid => exact storeRecord_keyed hk hid
  | eraseByTradeId nowMs tradeId =>
      simp only [TradeRecordDB.step, Prod.map, id, TradeRecordDB.eraseByTradeId]
      split
      · exact hk
      split
      · exact hk
      split
      · exact hk
      cases hentry : db.tradeIdIndex.find? tradeId with
      | none => exact hk
      | some k =>
          obtain ⟨o, ho, rfl⟩ := hk.trade hentry
          exact hk.erase ho rfl rfl
  | clear nowMs =>
      simp only [TradeRecordDB.step, Prod.map, id, TradeRecordDB.clear]
      split
      · exact hk
      split
      · exact hk
      · exact Keyed.empty.congr rfl rfl
  | getTradeId nowMs =>
      simp only [TradeRecordDB.step, Prod.map, id, TradeRecordDB.getTradeId]
      split
      · exact hk
      split
      · exact hk
      split
      · exact hk
      · exact (reserveTradeId_tables.keyed hk).congr rfl rfl
  | shutdown | reopen readOnly => exact hk.congr rfl rfl

theorem UidIndexed.step (hk : db.Keyed msToMin) (hu : db.UidIndexed) {e : Event} (hkeeps : Keeps msToMin db e) :
    (db.step msToMin e).1.UidIndexed := by
  cases e with
  | upsert nowMs record =>
      simp only [TradeRecordDB.step, Prod.map, id, TradeRecordDB.upsert]
      split
      · exact hu
      split
      · exact hu
      split
      · exact hu
      · next hopen hw hid =>
        have htables := (selectTradeId_spec hk hu record).1
        exact storeRecord_indexed (htables.keyed hk) (htables.uidIndexed hu)
          (upsert_keeps hk hu (hkeeps (by simpa using hopen) (by simpa using hw)))
  | write nowMs record =>
      simp only [TradeRecordDB.step, Prod.map, id, TradeRecordDB.write]
      split
      · exact hu
      split
      · exact hu
      split
      · exact hu
      · next hopen hw hid =>
        exact storeRecord_indexed hk hu (hkeeps (by simpa using hopen) (by simpa using hw) hid)
  | eraseByTradeId nowMs tradeId =>
      simp only [TradeRecordDB.step, Prod.map, id, TradeRecordDB.eraseByTradeId]
      split
      · exact hu
      split
      · exact hu
      split
      · exact hu
      next hopen hw hid =>
      cases hentry : db.tradeIdIndex.find? tradeId with
      | none => exact hu
      | some k =>
          obtain ⟨o, ho, hoid⟩ := hk.trade hentry
          have hkept := hkeeps (by simpa using hopen) (by simpa using hw) k o ho hoid
          exact erased_indexed hk hu ho hkept rfl (by simp [ho])
  | clear nowMs =>
      simp only [TradeRecordDB.step, Prod.map, id, TradeRecordDB.clear]
      split
      · exact hu
      split
      · exact hu
      · exact UidIndexed.empty.congr rfl rfl
  | getTradeId nowMs =>
      simp only [TradeRecordDB.step, Prod.map, id, TradeRecordDB.getTradeId]
      split
      · exact hu
      split
      · exact hu
      split
      · exact hu
      · exact (reserveTradeId_tables.uidIndexed hu).congr rfl rfl
  | shutdown | reopen readOnly => exact hu.congr rfl rfl

/-- A call after which the uid index keeps its promise has met the condition. -/
theorem keeps_of_uidFound (hk : db.Keyed msToMin) (hu : db.UidIndexed) {e : Event}
    (hfound : (db.step msToMin e).1.UidFound) : Keeps msToMin db e := by
  cases e with
  | upsert nowMs record =>
      intro hopen hw k o ho hr
      obtain ⟨htables, -, hselected⟩ := selectTradeId_spec hk hu record
      have hid := hselected k o ho hr
      have hne : (db.selectTradeId record).2 ≠ 0 := hid ▸ (hk.key _ _ ho).2
      simp only [TradeRecordDB.step, Prod.map, id, TradeRecordDB.upsert, hopen, hw, hne, Bool.not_true,
        Bool.false_eq_true, if_false] at hfound
      have hkept := storeRecord_kept (htables.keyed hk) (htables.isOpen.trans hopen) hfound (htables.records ▸ ho) hid
      unfold UidKept OnlyOne at hkept ⊢
      rw [htables.uidIndex, htables.records, ← hid] at hkept
      exact hkept
  | write nowMs record =>
      intro hopen hw hid k o ho hoid
      simp only [TradeRecordDB.step, Prod.map, id, TradeRecordDB.write, hopen, hw, hid, Bool.not_true,
        Bool.false_eq_true, if_false] at hfound
      exact storeRecord_kept hk hopen hfound ho hoid
  | eraseByTradeId nowMs tradeId =>
      rintro hopen hw k o ho rfl hpos
      have hfound : (db.eraseByTradeId nowMs o.tradeId).1.UidFound := hfound
      rw [eraseByTradeId_eq hk ho hopen hw] at hfound
      refine erased_kept hk hopen ho ?_ ?_ ?_ hfound hpos <;> rfl
  | clear | getTradeId | shutdown | reopen => trivial

/-- A call of `upsert` without a trade id changes a stored record only if that has its positive uid or its broker
identity. -/
theorem upsert_replaces (hk : db.Keyed msToMin) (hu : db.UidIndexed) (hid : record.tradeId = 0)
    (ho : db.records.find? k = some o) (hgone : (db.upsert msToMin nowMs record).1.records.find? k ≠ some o) :
    0 < record.uniqueId ∧ o.uniqueId = record.uniqueId ∨ record.sameBrokerIdentity o = true := by
  obtain ⟨htables, hselected, -⟩ := selectTradeId_spec hk hu record
  unfold upsert at hgone
  split at hgone
  · exact absurd ho hgone
  split at hgone
  · exact absurd ho hgone
  dsimp only at hgone
  split at hgone
  · exact absurd ho hgone
  · have hsame : o.tradeId = (db.selectTradeId record).2 := by
      by_contra hne
      exact hgone ((storeRecord_find? (htables.keyed hk)).mpr (.inr ⟨htables.records ▸ ho, hne⟩))
    rcases hselected k o ho hsame with hr | ⟨-, hou⟩
    · rw [Replaces, if_neg (not_not.mpr hid)] at hr
      exact .inr (List.find?_some hr.2)
    · exact .inl hou

end TradeRecordDB

end OptionX.Storage
