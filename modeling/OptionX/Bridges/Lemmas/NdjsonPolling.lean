import OptionX.Bridges.Lemmas.NdjsonRead

/-!
# Lemmas on polling a log

Window after window, and batch after batch, the reader goes through the log as it would at once.
-/

namespace OptionX.Bridges.MetaTraderFileProtocol

open Lib.Lines

variable {Doc : Type} {json : Json Doc} {maxLineBytes : Nat} {data : Bytes} {lastFileSeq : UInt64}

/-- Reads windows from an offset on, each where the one before it ended, until the offset stays as it is. -/
def pollWindows (json : Json Doc) (data : Bytes) (lastFileSeq : UInt64)
    (maxLineBytes maxScannedRecords maxReturnedRecords : Nat) :
    Nat → Nat → Option (List (NdjsonRecord Doc) × List NdjsonMalformedRecord)
  | 0, _ => none
  | fuel + 1, offset =>
      match readNdjsonSequenceWindow json (some data) offset lastFileSeq maxLineBytes maxScannedRecords
          maxReturnedRecords with
      | .error _ => none
      | .ok result =>
          if result.nextOffset = offset then some (result.records, result.malformedRecords)
          else (pollWindows json data lastFileSeq maxLineBytes maxScannedRecords maxReturnedRecords fuel
            result.nextOffset).map fun rest => (result.records ++ rest.1, result.malformedRecords ++ rest.2)

/-- The new records among these entries. -/
def newRecords (lastFileSeq : UInt64) (entries : List (Entry Doc)) : List (NdjsonRecord Doc) :=
  (recordsOf entries).filter fun r => decide (r.fileSeq > lastFileSeq)

theorem newRecords_append (entries entries' : List (Entry Doc)) :
    newRecords lastFileSeq (entries ++ entries') = newRecords lastFileSeq entries ++ newRecords lastFileSeq entries' := by
  rw [newRecords, recordsOf_append, List.filter_append]
  rfl

/-- The entries of the lines that begin at an offset or behind it. -/
def entriesFrom (json : Json Doc) (data : Bytes) (offset : Nat) : List (Entry Doc) :=
  entriesOf json offset (complete lineFeed (data.drop offset))

theorem entriesFrom_eq {offset : Nat} (hoffset : Boundary data offset) {front back : List Bytes}
    (hlines : complete lineFeed (data.drop offset) = front ++ back) :
    entriesFrom json data offset =
      entriesOf json offset front ++ entriesFrom json data (offset + (joined lineFeed front).length) := by
  rw [entriesFrom, entriesFrom, (hoffset.add hlines).2.1, hlines, entriesOf_append]

theorem pollWindows_eq {maxScannedRecords : Nat} (maxReturnedRecords : Nat) (hmax : 0 < maxLineBytes)
    (hscan : 0 < maxScannedRecords) (hfit : LinesFit maxLineBytes data) {fuel offset : Nat}
    (hoffset : Boundary data offset) (hfuel : data.length - offset < fuel) :
    pollWindows json data lastFileSeq maxLineBytes maxScannedRecords maxReturnedRecords fuel offset =
      some (newRecords lastFileSeq (entriesFrom json data offset), malformedOf (entriesFrom json data offset)) := by
  induction fuel generalizing offset with
  | zero => omega
  | succ fuel ih =>
      obtain ⟨result, front, back, hresult, hwindow⟩ := readNdjsonSequenceWindow_window json
        lastFileSeq maxReturnedRecords hmax hscan hoffset hfit
      rw [pollWindows, hresult]
      simp only [hwindow.nextOffset, hwindow.records, hwindow.malformed]
      by_cases hfront : front = []
      · have hlines : complete lineFeed (data.drop offset) = [] := by
          rw [hwindow.lines, hfront, hwindow.started hfront]
          rfl
        simp [hfront, entriesFrom, hlines, entriesOf, newRecords]
      · have hpos := length_joined_pos lineFeed hfront
        obtain ⟨hnext, hback, -⟩ := hoffset.add hwindow.lines
        have hfuel' : data.length - (offset + (joined lineFeed front).length) < fuel := by
          have := hnext.1
          omega
        have hmoved : ¬ offset + (joined lineFeed front).length = offset := by omega
        rw [if_neg hmoved, ih hnext hfuel', entriesFrom_eq hoffset hwindow.lines, newRecords_append, malformedOf_append]
        rfl

/-! ## Reading by sequence -/

theorem pushNew_eq {maxRecords : Nat} (records filtered : List (NdjsonRecord Doc))
    (hroom : maxRecords = 0 ∨ filtered.length < maxRecords) :
    pushNew lastFileSeq maxRecords filtered records =
      if maxRecords = 0 ∨
          (filtered ++ records.filter fun r => decide (r.fileSeq > lastFileSeq)).length < maxRecords then
        (filtered ++ records.filter fun r => decide (r.fileSeq > lastFileSeq), false)
      else ((filtered ++ records.filter fun r => decide (r.fileSeq > lastFileSeq)).take maxRecords, true) := by
  induction records generalizing filtered with
  | nil => simp [pushNew, hroom]
  | cons record records ih =>
      rw [pushNew]
      by_cases hnew : record.fileSeq > lastFileSeq
      · have hfilter : filtered ++ (record :: records).filter (fun r => decide (r.fileSeq > lastFileSeq)) =
            (filtered ++ [record]) ++ records.filter fun r => decide (r.fileSeq > lastFileSeq) := by simp [hnew]
        rw [if_pos hnew, hfilter]
        by_cases hfull : maxRecords ≠ 0 ∧ (filtered ++ [record]).length ≥ maxRecords
        · have hlength : (filtered ++ [record]).length = maxRecords := by
            have := hfull.2
            rw [List.length_append, List.length_singleton] at this ⊢
            omega
          have hover : ¬ (maxRecords = 0 ∨
              ((filtered ++ [record]) ++ records.filter fun r => decide (r.fileSeq > lastFileSeq)).length <
                maxRecords) := by
            rw [List.length_append, hlength]
            omega
          rw [if_pos hfull, if_neg hover, List.take_append_of_le_length hlength.ge, ← hlength, List.take_length]
        · rw [if_neg hfull]
          exact ih _ (by omega)
      · have hfilter : (record :: records).filter (fun r => decide (r.fileSeq > lastFileSeq)) =
            records.filter fun r => decide (r.fileSeq > lastFileSeq) := by simp [hnew]
        rw [if_neg hnew, hfilter]
        exact ih filtered hroom

/-- The first of these records, or all of them where there is no limit. -/
def firstRecords (maxRecords : Nat) (records : List (NdjsonRecord Doc)) : List (NdjsonRecord Doc) :=
  if maxRecords = 0 then records else records.take maxRecords

/-- A batch that does not fill its limit, or does not move, is the last one. -/
theorem Passed.eq_nil_of_break {maxRecords offset : Nat} {tail : Bytes} {before batch : NdjsonReadResult Doc}
    {used left : List Bytes} (h : Passed json (if maxRecords = 0 then 0 else max maxRecords 1) offset tail 0 before batch
      used left)
    (hbreak : maxRecords = 0 ∨ batch.incompleteTail = true ∨ batch.nextOffset ≤ offset ∨
      (entriesOf json offset used).length < if maxRecords = 0 then 0 else max maxRecords 1) : left = [] := by
  obtain hzero | hincomplete | hstill | hfew := hbreak
  · refine h.finished (Bool.eq_false_of_not_eq_true fun hstopped => ?_)
    exact (h.stopped.mp hstopped).1 (if_pos hzero)
  · exact h.incomplete hincomplete
  · refine h.started ?_
    by_contra hused
    have hpos := length_joined_pos lineFeed hused
    rw [h.nextOffset] at hstill
    omega
  · refine h.finished (Bool.eq_false_of_not_eq_true fun hstopped => ?_)
    have hmaximal := (h.stopped.mp hstopped).2.1
    rw [h.scanned] at hmaximal
    omega

theorem readSinceLoop_eq {maxRecords : Nat} (hmax : 0 < maxLineBytes) (hfit : LinesFit maxLineBytes data)
    {fuel offset : Nat} (hoffset : Boundary data offset) (hfuel : data.length - offset < fuel)
    (filtered : List (NdjsonRecord Doc)) (hroom : maxRecords = 0 ∨ filtered.length < maxRecords) :
    readSinceLoop json (some data) lastFileSeq maxLineBytes maxRecords fuel filtered offset =
      some (.ok (firstRecords maxRecords (filtered ++ newRecords lastFileSeq (entriesFrom json data offset)))) := by
  induction fuel generalizing offset filtered with
  | zero => omega
  | succ fuel ih =>
      obtain ⟨batch, used, left, hlines, hbatch, hpassed⟩ := @readNdjsonFromOffset_passed Doc json maxLineBytes
        (if maxRecords = 0 then 0 else max maxRecords 1) data offset hmax hoffset hfit
      have hrecords : batch.records = recordsOf (entriesOf json offset used) := hpassed.records
      have hmalformed : batch.malformedRecords = malformedOf (entriesOf json offset used) := hpassed.malformed
      rw [readSinceLoop, hbatch]
      simp only [pushNew_eq _ _ hroom, hrecords, hmalformed, length_entries]
      rw [← newRecords, entriesFrom_eq hoffset hlines, newRecords_append]
      by_cases hfew : maxRecords = 0 ∨
          (filtered ++ newRecords lastFileSeq (entriesOf json offset used)).length < maxRecords
      · rw [if_pos hfew]
        dsimp only
        by_cases hbreak : maxRecords = 0 ∨ batch.incompleteTail = true ∨ batch.nextOffset ≤ offset ∨
            (entriesOf json offset used).length < if maxRecords = 0 then 0 else max maxRecords 1
        · rw [if_pos hbreak]
          have hleft := hpassed.eq_nil_of_break hbreak
          have hrest : entriesFrom json data (offset + (joined lineFeed used).length) = [] := by
            rw [entriesFrom, (hoffset.add hlines).2.1, hleft]
            rfl
          have hnone : newRecords lastFileSeq ([] : List (Entry Doc)) = [] := rfl
          rw [hrest, hnone, List.append_nil, firstRecords]
          split
          · rfl
          · rw [List.take_of_length_le (by omega)]
        · rw [if_neg hbreak]
          have hnext := hpassed.nextOffset
          have hmoved : offset < batch.nextOffset := by omega
          rw [hnext] at hmoved ⊢
          obtain ⟨hboundary, -, -⟩ := hoffset.add hlines
          have hfuel' : data.length - (offset + (joined lineFeed used).length) < fuel := by
            have := hboundary.1
            omega
          rw [ih hboundary hfuel' _ hfew, List.append_assoc]
      · have hmany : maxRecords ≤ (filtered ++ newRecords lastFileSeq (entriesOf json offset used)).length := by omega
        have hlimited : ¬ maxRecords = 0 := fun hzero => hfew (.inl hzero)
        rw [if_neg hfew]
        dsimp only
        rw [firstRecords, if_neg hlimited, ← List.append_assoc, List.take_append_of_le_length hmany]

end OptionX.Bridges.MetaTraderFileProtocol
