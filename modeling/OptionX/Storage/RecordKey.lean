import OptionX.Lib.FixedWidth
import OptionX.Lib.Index

/-!
# Keys, ids and results of the record databases

What `SignalRecordDB` and `TradeRecordDB` write alike: the composite key of a record, the id sequence in the
metadata, and the results of a call. The conversion of milliseconds to minutes comes from another library and is a
parameter.
-/

namespace OptionX.Storage

inductive StorageStatus where
  | success | notFound | invalidArgument | notOpen | readOnly | queueClosed | conflict | dbError | sequenceExhausted
  deriving DecidableEq

structure StorageWriteResult (Record : Type) where
  status : StorageStatus
  record : Record
  message : String := ""
  deriving DecidableEq

def writeSuccess {Record : Type} (record : Record) : StorageWriteResult Record := { status := .success, record }

def writeError {Record : Type} (status : StorageStatus) (record : Record) (message : String) :
    StorageWriteResult Record := { status, record, message }

structure StorageReadResult (Record : Type) where
  status : StorageStatus
  record : Record
  found : Bool := false
  message : String := ""
  deriving DecidableEq

def readError {Record : Type} [Inhabited Record] (status : StorageStatus) (message : String) :
    StorageReadResult Record := { status, record := default, message }

def minutesBias : UInt32 := 0x80000000

def biasMinutes (minutes : Int) : UInt32 := UInt32.ofInt minutes + minutesBias

def makeCompositeKey (unixMinutes : Int) (id : UInt32) : UInt64 :=
  (biasMinutes unixMinutes).toUInt64 <<< 32 ||| id.toUInt64

/-- `composite_key_signal_id`. -/
def compositeKeyId (key : UInt64) : UInt32 := key.toUInt32

@[simp] theorem compositeKeyId_make (unixMinutes : Int) (id : UInt32) :
    compositeKeyId (makeCompositeKey unixMinutes id) = id := by
  apply UInt32.toBitVec_inj.mp
  ext j hj
  simp [compositeKeyId, makeCompositeKey]

/-- The minute of a timestamp, within the bounds of the key. -/
def timestampMsToUnixMinutes (msToMin : Int → Int) (timestampMs : Int) : Int :=
  let minutes := msToMin timestampMs
  if minutes ≤ -2 ^ 31 then -2 ^ 31
  else if 2 ^ 31 - 1 ≤ minutes then 2 ^ 31 - 1
  else minutes

/-- `SignalRecordDBMeta` and `TradeRecordDBMeta`. -/
structure Meta where
  dbVersion : UInt64 := 1
  /-- `next_signal_id`, or `next_trade_uid`. -/
  nextId : UInt32 := 1
  lastUpdateMs : Int := 0
  deriving DecidableEq

/-- The search for a free id from a candidate on. It ends after one round through the ids, with zero when all of
them are taken; the fuel is never used up. -/
def nextFreeId (taken : UInt32 → Bool) (start : UInt32) : Nat → UInt32 → Bool → UInt32
  | 0, _, _ => 0
  | fuel + 1, candidate, wrapped =>
      if candidate ≠ 0 ∧ taken candidate = true then
        let next := candidate + 1
        if next = 0 then
          if 1 = start then 0 else nextFreeId taken start fuel 1 true
        else if wrapped = true ∧ next = start then 0
        else nextFreeId taken start fuel next wrapped
      else candidate

namespace Meta

/-- `init_meta_no_lock`. -/
def init (m : Meta) : Meta :=
  { m with
    dbVersion := if m.dbVersion = 0 then 1 else m.dbVersion
    nextId := if m.nextId = 0 then 1 else m.nextId }

def firstCandidate (m : Meta) : UInt32 := if m.nextId = 0 then 1 else m.nextId

/-- The id that `reserve_signal_id_no_lock` and `reserve_trade_id_no_lock` find free, or zero. -/
@[irreducible] def freeId (taken : UInt32 → Bool) (m : Meta) : UInt32 :=
  nextFreeId taken m.firstCandidate (2 ^ 32) m.firstCandidate false

/-- The sequence goes on after an id. -/
def advance (id : UInt32) (m : Meta) : Meta := { m with nextId := if id + 1 = 0 then 1 else id + 1 }

end Meta

/-- A stored value of metadata, absent until it is set. -/
abbrev MetaTable := Option Meta

namespace MetaTable

def get (m : MetaTable) : Meta := m.getD {}

/-- `bump_next_signal_id_no_lock`, `bump_next_trade_id_no_lock`. -/
def bump (usedId : UInt32) (m : MetaTable) : MetaTable :=
  if usedId = 0 then m
  else
    let next := if m.get.nextId = 0 then 1 else m.get.nextId
    if next ≤ usedId then some { m.get with nextId := if usedId = 0xFFFFFFFF then 1 else usedId + 1 } else m

/-- `update_last_update_no_lock`. -/
def updateLastUpdate (nowMs : Int) (m : MetaTable) : MetaTable := some { m.get with lastUpdateMs := nowMs }

end MetaTable

/-! ## The search for a free id -/

section FreeId

variable {taken : UInt32 → Bool} {start : UInt32}

/-- The search with no answer where the fuel is used up. -/
def nextFreeId? (taken : UInt32 → Bool) (start : UInt32) : Nat → UInt32 → Bool → Option UInt32
  | 0, _, _ => none
  | fuel + 1, candidate, wrapped =>
      if candidate ≠ 0 ∧ taken candidate = true then
        let next := candidate + 1
        if next = 0 then
          if 1 = start then some 0 else nextFreeId? taken start fuel 1 true
        else if wrapped = true ∧ next = start then some 0
        else nextFreeId? taken start fuel next wrapped
      else some candidate

theorem nextFreeId_of_some {fuel : Nat} {candidate id : UInt32} {wrapped : Bool}
    (h : nextFreeId? taken start fuel candidate wrapped = some id) :
    nextFreeId taken start fuel candidate wrapped = id := by
  induction fuel generalizing candidate wrapped with
  | zero => cases h
  | succ fuel ih =>
      rw [nextFreeId?] at h
      rw [nextFreeId]
      split
      · next hc =>
        rw [if_pos hc] at h
        dsimp only at h ⊢
        split
        · next h0 =>
          rw [if_pos h0] at h
          split
          · next h1 => exact Option.some.inj ((if_pos h1).symm.trans h)
          · next h1 => exact ih ((if_neg h1).symm.trans h)
        · next h0 =>
          rw [if_neg h0] at h
          split
          · next h1 => exact Option.some.inj ((if_pos h1).symm.trans h)
          · next h1 => exact ih ((if_neg h1).symm.trans h)
      · next hc => exact Option.some.inj ((if_neg hc).symm.trans h)

/-- The way of the search from its start to an id. -/
def distance (start id : UInt32) : Nat := (id - start).toNat

theorem distance_eq (start id : UInt32) : distance start id = (2 ^ 32 - start.toNat + id.toNat) % 2 ^ 32 :=
  UInt32.toNat_sub id start

theorem distance_inj {a b : UInt32} (h : distance start a = distance start b) : a = b := by
  have ha := a.toNat_lt
  have hb := b.toNat_lt
  have hs := start.toNat_lt
  rw [distance_eq, distance_eq] at h
  exact UInt32.toNat_inj.mp (by omega)

theorem toNat_ne_zero {id : UInt32} (h : id ≠ 0) : id.toNat ≠ 0 :=
  fun he => h (UInt32.toNat_inj.mp (by simpa using he))

/-- What the search answers: the first free id on the way, or zero when none is free. -/
def Finds (taken : UInt32 → Bool) (start id : UInt32) : Prop :=
  (id = 0 → ∀ i, i ≠ 0 → taken i = true) ∧
    (id ≠ 0 → taken id = false ∧ ∀ i, i ≠ 0 → distance start i < distance start id → taken i = true)

/-- The search ends by itself within one round. -/
theorem nextFreeId?_spec {fuel : Nat} {candidate : UInt32} {wrapped : Bool} (hs : start ≠ 0) (hc : candidate ≠ 0)
    (hw : wrapped = true ↔ candidate < start) (hfuel : 2 ^ 32 ≤ fuel + distance start candidate)
    (hseen : ∀ i, i ≠ 0 → distance start i < distance start candidate → taken i = true) :
    ∃ id, nextFreeId? taken start fuel candidate wrapped = some id ∧ Finds taken start id := by
  have hs0 := toNat_ne_zero hs
  have hslt := start.toNat_lt
  induction fuel generalizing candidate wrapped with
  | zero =>
      have := (candidate - start).toNat_lt
      rw [distance] at hfuel
      omega
  | succ fuel ih =>
      have hc0 := toNat_ne_zero hc
      have hclt := candidate.toNat_lt
      rw [UInt32.lt_iff_toNat_lt] at hw
      rw [nextFreeId?]
      by_cases htaken : taken candidate = true
      · rw [if_pos ⟨hc, htaken⟩]
        -- All ids up to the candidate are taken.
        have hseen' : ∀ i, i ≠ 0 → distance start i ≤ distance start candidate → taken i = true := by
          intro i hi hle
          rcases Nat.lt_or_eq_of_le hle with hlt | heq
          · exact hseen i hi hlt
          · rw [distance_inj heq]
            exact htaken
        rw [distance_eq] at hfuel
        simp only [distance_eq start candidate] at hseen'
        by_cases hlast : candidate.toNat = 2 ^ 32 - 1
        · have hnext : candidate + 1 = 0 := UInt32.toNat_inj.mp (by simp [UInt32.toNat_add, hlast])
          simp only [hnext, if_true]
          by_cases h1 : 1 = start
          · rw [if_pos h1]
            have h1' : start.toNat = 1 := by simp [← h1]
            refine ⟨0, rfl, fun _ i hi => hseen' i hi ?_, fun h => absurd rfl h⟩
            have hi0 := toNat_ne_zero hi
            have hilt := i.toNat_lt
            rw [distance_eq]
            omega
          · rw [if_neg h1]
            have h1' : start.toNat ≠ 1 := fun he => h1 (UInt32.toNat_inj.mp (by simpa using he.symm))
            refine ih (by decide) ?_ ?_ fun i hi hlt => hseen' i hi ?_
            · simp [UInt32.lt_iff_toNat_lt]
              omega
            · rw [distance_eq]
              simp
              omega
            · have hi0 := toNat_ne_zero hi
              have hilt := i.toNat_lt
              simp only [distance_eq] at hlt ⊢
              simp at hlt
              omega
        · have hnext : (candidate + 1).toNat = candidate.toNat + 1 := by
            rw [UInt32.toNat_add]
            simp
            omega
          have hne : candidate + 1 ≠ 0 := fun he => by simp [he] at hnext
          simp only [hne, if_false]
          by_cases hround : wrapped = true ∧ candidate + 1 = start
          · rw [if_pos hround]
            have := congrArg UInt32.toNat hround.2
            refine ⟨0, rfl, fun _ i hi => hseen' i hi ?_, fun h => absurd rfl h⟩
            have hilt := i.toNat_lt
            rw [distance_eq]
            omega
          · rw [if_neg hround]
            have hstart : wrapped = true → candidate.toNat + 1 ≠ start.toNat := fun hwr he =>
              hround ⟨hwr, UInt32.toNat_inj.mp (hnext.trans he)⟩
            have hstart' : candidate.toNat + 1 ≠ start.toNat := fun he => hstart (hw.mpr (by omega)) he
            refine ih hne ?_ ?_ fun i hi hlt => hseen' i hi ?_
            · rw [UInt32.lt_iff_toNat_lt, hnext, hw]
              omega
            · rw [distance_eq, hnext]
              omega
            · have hilt := i.toNat_lt
              simp only [distance_eq, hnext] at hlt ⊢
              omega
      · rw [if_neg fun h => htaken h.2]
        exact ⟨candidate, rfl, fun h => absurd h hc, fun _ => ⟨by simpa using htaken, hseen⟩⟩

theorem Meta.firstCandidate_ne_zero (m : Meta) : m.firstCandidate ≠ 0 := by
  unfold Meta.firstCandidate
  split
  · decide
  · assumption

/-- The search for a free id ends, with the first one from the candidate on. -/
theorem Meta.freeId_finds (taken : UInt32 → Bool) (m : Meta) :
    nextFreeId? taken m.firstCandidate (2 ^ 32) m.firstCandidate false = some (m.freeId taken) ∧
      Finds taken m.firstCandidate (m.freeId taken) := by
  obtain ⟨id, hid, hfinds⟩ : ∃ id, nextFreeId? taken m.firstCandidate (2 ^ 32) m.firstCandidate false = some id ∧
      Finds taken m.firstCandidate id :=
    nextFreeId?_spec m.firstCandidate_ne_zero m.firstCandidate_ne_zero (by simp) (by omega)
      fun i _ hlt => by simp [distance] at hlt
  have : m.freeId taken = id := by
    unfold Meta.freeId
    exact nextFreeId_of_some hid
  rw [this]
  exact ⟨hid, hfinds⟩

theorem Meta.freeId_free {m : Meta} (h : m.freeId taken ≠ 0) : taken (m.freeId taken) = false :=
  ((m.freeId_finds taken).2.2 h).1

/-- No id is found exactly when every id is taken. -/
theorem Meta.freeId_eq_zero_iff {m : Meta} : m.freeId taken = 0 ↔ ∀ id, id ≠ 0 → taken id = true := by
  refine ⟨(m.freeId_finds taken).2.1, fun hall => ?_⟩
  by_contra hne
  have hfree := Meta.freeId_free hne
  rw [hall _ hne] at hfree
  cases hfree

end FreeId

end OptionX.Storage
