import OptionX.Storage.IdSequence
import OptionX.Storage.Lemmas.SignalRecordDB
import OptionX.Storage.Lemmas.TradeRecordDB

/-!
# The ids of the record databases

`TradeRecordDB` and `SignalRecordDB` as sources of ids: a call that needs an id takes the first free one from the
cursor of the sequence on.
-/

namespace OptionX.Storage

namespace TradeRecordDB

variable {msToMin : Int → Int} {nowMs : Int} {db : TradeRecordDB} {record : TradeRecord} {tradeId : UInt32}

/-- There is a record of the trade. -/
def Stored (db : TradeRecordDB) (tradeId : UInt32) : Prop := ∃ k r, db.records.find? k = some r ∧ r.tradeId = tradeId

/-- The trade id that `upsert` has for a record before it would reserve one, zero when it has none. -/
def existing (record : TradeRecord) (db : TradeRecordDB) : TradeRecordDB × UInt32 :=
  let byUid := db.findUid record
  if byUid.2 = 0 ∧ record.hasBrokerIdentity = true then (byUid.1, byUid.1.findBrokerIdentityKey record) else byUid

def Reserves (db : TradeRecordDB) (e : Event) : Prop :=
  db.isOpen = true ∧ db.readOnly = false ∧
    match e with
    | .getTradeId _ => True
    | .upsert _ record => (db.existing record).2 = 0
    | .write .. | .eraseByTradeId .. | .clear _ | .shutdown | .reopen _ => False

def handed (st : Lib.Step TradeRecordDB Event Answer) : Option UInt32 :=
  match st.event, st.answer with
  | .getTradeId _, .id tradeId => if tradeId = 0 then none else some tradeId
  | .upsert _ record, .result result =>
      if result.status = .success ∧ (st.before.existing record).2 = 0 then some result.record.tradeId else none
  | _, _ => none

/-- The database as a source of trade ids. -/
def tradeIds (msToMin : Int → Int) : IdSource TradeRecordDB Event Answer where
  step := step msToMin
  stored := Stored
  cursor db := db.metaTable.get.firstCandidate
  reserves := Reserves
  handed := handed

theorem Keyed.contains_iff (h : db.Keyed msToMin) (id : UInt32) : db.tradeIdIndex.contains id = true ↔ db.Stored id := by
  rw [Lib.OrderedMap.contains_iff]
  constructor
  · rintro ⟨k, hk⟩
    obtain ⟨r, hr, hid⟩ := h.trade hk
    exact ⟨k, r, hr, hid⟩
  · rintro ⟨k, r, hr, rfl⟩
    exact ⟨k, h.indexed hr⟩

theorem reserveTradeId_snd : db.reserveTradeId.2 = db.metaTable.get.freeId db.tradeIdIndex.contains := by
  unfold reserveTradeId
  dsimp only
  split
  · next h => exact h.symm
  · rfl

theorem selectTradeId_snd (h : (db.existing record).2 = 0) :
    (db.selectTradeId record).2 = db.metaTable.get.freeId db.tradeIdIndex.contains := by
  have hsame : (db.existing record).1.metaTable = db.metaTable ∧
      (db.existing record).1.tradeIdIndex = db.tradeIdIndex := by
    obtain ⟨-, hindex, hmeta⟩ := @findUid_tables db record
    unfold existing
    dsimp only
    split <;> exact ⟨hmeta, hindex⟩
  have hselect : db.selectTradeId record = (db.existing record).1.reserveTradeId := if_pos h
  rw [hselect, reserveTradeId_snd, hsame.1, hsame.2]

theorem getTradeId_snd (db : TradeRecordDB) (nowMs : Int) : (db.getTradeId nowMs).2 =
    if db.isOpen = true ∧ db.readOnly = false then db.metaTable.get.freeId db.tradeIdIndex.contains else 0 := by
  unfold getTradeId
  cases db.isOpen <;> cases db.readOnly <;> simp [← reserveTradeId_snd]
  split
  · next h => rw [h]
  · rfl

/-- An upsert that needs an id stores its record under the free one, if there is one. -/
theorem upsert_reserving (msToMin : Int → Int) (nowMs : Int) (hopen : db.isOpen = true) (hw : db.readOnly = false) (h : (db.existing record).2 = 0) :
    (db.upsert msToMin nowMs record).2 =
      if db.metaTable.get.freeId db.tradeIdIndex.contains = 0 then
        writeError .dbError record "TradeRecordDB could not reserve a trade_id"
      else writeSuccess { record with tradeId := db.metaTable.get.freeId db.tradeIdIndex.contains } := by
  simp only [upsert, hopen, hw, selectTradeId_snd h, Bool.not_true, Bool.false_eq_true, if_false]
  split <;> rfl

theorem takesFirst (h : db.Keyed msToMin) (e : Event) : (tradeIds msToMin).TakesFirst db e := by
  refine .of_free h.contains_iff rfl (fun hr => ?_) fun hr => ?_
  · obtain ⟨hopen, hw, hneeds⟩ := hr
    cases e with
    | getTradeId nowMs =>
        have hid := getTradeId_snd db nowMs
        rw [if_pos ⟨hopen, hw⟩] at hid
        rw [← hid]
        rfl
    | upsert nowMs record =>
        have hresult := upsert_reserving msToMin nowMs hopen hw hneeds
        simp only [tradeIds, handed, Lib.Run.stepOf, step, Prod.map, id, hresult]
        split
        · rfl
        · exact if_pos ⟨rfl, hneeds⟩
    | write | eraseByTradeId | clear | shutdown | reopen => exact hneeds.elim
  · cases e with
    | getTradeId nowMs =>
        have hid := getTradeId_snd db nowMs
        rw [if_neg fun hc => hr ⟨hc.1, hc.2, trivial⟩] at hid
        simp [tradeIds, handed, Lib.Run.stepOf, step, Prod.map, hid]
    | upsert nowMs record =>
        refine if_neg fun hc => ?_
        have hok : (db.upsert msToMin nowMs record).2.status = .success := hc.1
        cases hopen : db.isOpen with
        | false => simp [upsert, hopen, writeError] at hok
        | true =>
            cases hw : db.readOnly with
            | true => simp [upsert, hopen, hw, writeError] at hok
            | false => exact hr ⟨hopen, hw, hc.2⟩
    | write | eraseByTradeId | clear | shutdown | reopen => rfl

end TradeRecordDB

namespace SignalRecordDB

variable {msToMin : Int → Int} {nowMs : Int} {db : SignalRecordDB} {record : SignalRecord} {signalId : UInt32}

/-- There is a record of the signal. -/
def Stored (db : SignalRecordDB) (signalId : UInt32) : Prop :=
  ∃ k r, db.records.find? k = some r ∧ r.signalId = signalId

def Reserves (db : SignalRecordDB) (e : Event) : Prop :=
  db.isOpen = true ∧ db.readOnly = false ∧
    match e with
    | .getSignalId _ => True
    | .upsert _ record => (db.findExistingSignalId record).2 = 0
    | .write .. | .eraseBySignalId .. | .clear _ | .shutdown | .reopen _ => False

def handed (st : Lib.Step SignalRecordDB Event Answer) : Option UInt32 :=
  match st.event, st.answer with
  | .getSignalId _, .id signalId => if signalId = 0 then none else some signalId
  | .upsert _ record, .result result =>
      if result.status = .success ∧ (st.before.findExistingSignalId record).2 = 0 then some result.record.signalId
      else none
  | _, _ => none

/-- The database as a source of signal ids. -/
def signalIds (msToMin : Int → Int) : IdSource SignalRecordDB Event Answer where
  step := step msToMin
  stored := Stored
  cursor db := db.metaTable.get.firstCandidate
  reserves := Reserves
  handed := handed

theorem Coherent.contains_iff (h : db.Coherent msToMin) (id : UInt32) :
    db.signalIdIndex.contains id = true ↔ db.Stored id := by
  rw [Lib.OrderedMap.contains_iff]
  constructor
  · rintro ⟨k, hk⟩
    obtain ⟨r, hr, hid⟩ := h.signal hk
    exact ⟨k, r, hr, hid⟩
  · rintro ⟨k, r, hr, rfl⟩
    exact ⟨k, h.indexed hr⟩

theorem reserveSignalId_snd : db.reserveSignalId.2 = db.metaTable.get.freeId db.signalIdIndex.contains := by
  unfold reserveSignalId
  dsimp only
  split
  · next h => exact h.symm
  · rfl

theorem getSignalId_snd (db : SignalRecordDB) (nowMs : Int) : (db.getSignalId nowMs).2 =
    if db.isOpen = true ∧ db.readOnly = false then db.metaTable.get.freeId db.signalIdIndex.contains else 0 := by
  unfold getSignalId
  cases db.isOpen <;> cases db.readOnly <;> simp [← reserveSignalId_snd]
  split
  · next h => rw [h]
  · rfl

/-- Where no owner is found, no trade id of the record is in the index. -/
theorem findOwner_none (h : db.Coherent msToMin) {tradeIds : List UInt32} (hnone : (findOwner tradeIds db).2 = 0) :
    ∀ tradeId ∈ tradeIds, tradeId ≠ 0 → db.tradeIdIndex.find? tradeId = none := by
  induction tradeIds with
  | nil => exact fun _ ht => (by cases ht)
  | cons t tradeIds ih =>
      unfold findOwner at hnone
      intro tradeId ht h0
      split at hnone
      · next hzero =>
        rcases List.mem_cons.mp ht with rfl | ht
        · exact absurd hzero h0
        · exact ih hnone tradeId ht h0
      · cases hk : db.tradeIdIndex.find? t with
        | none =>
            rw [hk] at hnone
            rcases List.mem_cons.mp ht with rfl | ht
            · exact hk
            · exact ih hnone tradeId ht h0
        | some k =>
            obtain ⟨r, hr, -⟩ := h.owner hk
            simp only [hk, hr] at hnone
            exact absurd hnone (h.keyed k r hr).2

theorem tradeIdConflicts_none {tradeIds : List UInt32}
    (h : ∀ tradeId ∈ tradeIds, tradeId ≠ 0 → db.tradeIdIndex.find? tradeId = none) :
    (db.tradeIdConflicts signalId tradeIds).2 = false := by
  induction tradeIds with
  | nil => rfl
  | cons t tradeIds ih =>
      have ih := ih fun tradeId ht => h tradeId (List.mem_cons_of_mem _ ht)
      unfold tradeIdConflicts
      split
      · exact ih
      · next h0 =>
        rw [h t List.mem_cons_self h0]
        exact ih

/-- An upsert that needs an id meets no conflict: it stores its record under the free id, if there is one. -/
theorem upsert_reserving (nowMs : Int) (h : db.Coherent msToMin) (hopen : db.isOpen = true) (hw : db.readOnly = false)
    (hneeds : (db.findExistingSignalId record).2 = 0) :
    (db.upsert msToMin nowMs record).2 =
      if db.metaTable.get.freeId db.signalIdIndex.contains = 0 then
        writeError .sequenceExhausted record "SignalRecordDB could not reserve a signal_id"
      else writeSuccess { record with signalId := db.metaTable.get.freeId db.signalIdIndex.contains } := by
  have hselect : db.selectSignalId record = db.reserveSignalId := by
    have hdb := @findExistingSignalId_fst msToMin db record h
    unfold selectSignalId
    dsimp only
    rw [if_pos hneeds, hdb]
  have hgiven : record.signalId = 0 := by
    by_contra hne
    exact hne (findExistingSignalId_given hne ▸ hneeds)
  have hnone : (findOwner record.tradeIds db).2 = 0 := by
    simpa [findExistingSignalId, hgiven] using hneeds
  have hconflict : ∀ id, (db.reserveSignalId.1.tradeIdConflicts id record.tradeIds).2 = false := by
    intro id
    have hindex : db.reserveSignalId.1.tradeIdIndex = db.tradeIdIndex := by
      unfold reserveSignalId
      dsimp only
      split <;> rfl
    exact tradeIdConflicts_none (by rw [hindex]; exact findOwner_none h hnone)
  simp only [upsert, hopen, hw, hselect, checkAndStore, hconflict, reserveSignalId_snd, Bool.not_true,
    Bool.false_eq_true, if_false]
  split <;> rfl

theorem takesFirst (h : db.Coherent msToMin) (e : Event) : (signalIds msToMin).TakesFirst db e := by
  refine .of_free h.contains_iff rfl (fun hr => ?_) fun hr => ?_
  · obtain ⟨hopen, hw, hneeds⟩ := hr
    cases e with
    | getSignalId nowMs =>
        have hid := getSignalId_snd db nowMs
        rw [if_pos ⟨hopen, hw⟩] at hid
        rw [← hid]
        rfl
    | upsert nowMs record =>
        have hresult := upsert_reserving nowMs h hopen hw hneeds
        simp only [signalIds, handed, Lib.Run.stepOf, step, Prod.map, id, hresult]
        split
        · rfl
        · exact if_pos ⟨rfl, hneeds⟩
    | write | eraseBySignalId | clear | shutdown | reopen => exact hneeds.elim
  · cases e with
    | getSignalId nowMs =>
        have hid := getSignalId_snd db nowMs
        rw [if_neg fun hc => hr ⟨hc.1, hc.2, trivial⟩] at hid
        simp [signalIds, handed, Lib.Run.stepOf, step, Prod.map, hid]
    | upsert nowMs record =>
        refine if_neg fun hc => ?_
        have hok : (db.upsert msToMin nowMs record).2.status = .success := hc.1
        cases hopen : db.isOpen with
        | false => simp [upsert, hopen, writeError] at hok
        | true =>
            cases hw : db.readOnly with
            | true => simp [upsert, hopen, hw, writeError] at hok
            | false => exact hr ⟨hopen, hw, hc.2⟩
    | write | eraseBySignalId | clear | shutdown | reopen => rfl

end SignalRecordDB

end OptionX.Storage
