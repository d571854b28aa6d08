import OptionX.Bridges.MetaTraderFileProtocol

/-!
# Lemmas on reading logs

The reader goes through the complete lines of the log. What it yields for them is a list of entries, one for each line
that is not blank; a window takes some of them, and the next window begins behind them.
-/

namespace OptionX.Bridges.MetaTraderFileProtocol

open Lib.Lines

variable {Doc : Type} {json : Json Doc} {maxLineBytes maxRecords : Nat}

/-! ## Entries of lines -/

/-- What the complete lines that begin at an offset hold. -/
def entriesOf (json : Json Doc) : Nat → List Bytes → List (Entry Doc)
  | _, [] => []
  | offset, line :: lines =>
      let next := offset + (line.length + 1)
      if dropCarriageReturn line = [] then entriesOf json next lines
      else readLine json (dropCarriageReturn line) offset next :: entriesOf json next lines

def recordsOf (entries : List (Entry Doc)) : List (NdjsonRecord Doc) := entries.filterMap Sum.getLeft?

def malformedOf (entries : List (Entry Doc)) : List NdjsonMalformedRecord := entries.filterMap Sum.getRight?

@[simp] theorem recordsOf_nil : recordsOf ([] : List (Entry Doc)) = [] := rfl

@[simp] theorem malformedOf_nil : malformedOf ([] : List (Entry Doc)) = [] := rfl

@[simp] theorem recordsOf_append (entries entries' : List (Entry Doc)) :
    recordsOf (entries ++ entries') = recordsOf entries ++ recordsOf entries' := List.filterMap_append

@[simp] theorem malformedOf_append (entries entries' : List (Entry Doc)) :
    malformedOf (entries ++ entries') = malformedOf entries ++ malformedOf entries' := List.filterMap_append

@[simp] theorem recordsOf_inl (record : NdjsonRecord Doc) (entries : List (Entry Doc)) :
    recordsOf (.inl record :: entries) = record :: recordsOf entries := rfl

@[simp] theorem recordsOf_inr (malformed : NdjsonMalformedRecord) (entries : List (Entry Doc)) :
    recordsOf (.inr malformed :: entries) = recordsOf entries := rfl

@[simp] theorem malformedOf_inl (record : NdjsonRecord Doc) (entries : List (Entry Doc)) :
    malformedOf (.inl record :: entries) = malformedOf entries := rfl

@[simp] theorem malformedOf_inr (malformed : NdjsonMalformedRecord) (entries : List (Entry Doc)) :
    malformedOf (.inr malformed :: entries) = malformed :: malformedOf entries := rfl

theorem recordsOf_cons (entry : Entry Doc) (entries : List (Entry Doc)) :
    recordsOf (entry :: entries) = recordsOf [entry] ++ recordsOf entries := recordsOf_append [entry] entries

theorem malformedOf_cons (entry : Entry Doc) (entries : List (Entry Doc)) :
    malformedOf (entry :: entries) = malformedOf [entry] ++ malformedOf entries := malformedOf_append [entry] entries

theorem length_entries (entries : List (Entry Doc)) :
    (recordsOf entries).length + (malformedOf entries).length = entries.length := by
  induction entries with
  | nil => rfl
  | cons entry entries ih =>
      cases entry with
      | inl record =>
          simp only [recordsOf_inl, malformedOf_inl, List.length_cons]
          omega
      | inr malformed =>
          simp only [recordsOf_inr, malformedOf_inr, List.length_cons]
          omega

theorem length_joined_cons (line : Bytes) (lines : List Bytes) :
    (joined lineFeed (line :: lines)).length = line.length + 1 + (joined lineFeed lines).length := by
  simp only [joined, List.length_append, List.length_cons]
  omega

theorem entriesOf_append (offset : Nat) (lines lines' : List Bytes) :
    entriesOf json offset (lines ++ lines') =
      entriesOf json offset lines ++ entriesOf json (offset + (joined lineFeed lines).length) lines' := by
  induction lines generalizing offset with
  | nil => rfl
  | cons line lines ih =>
      rw [List.cons_append, entriesOf, entriesOf, ih, length_joined_cons, Nat.add_assoc]
      split <;> rfl

theorem startOffset_readLine (line : Bytes) (lineStart recordNext : Nat) :
    (readLine json line lineStart recordNext).startOffset = lineStart := by
  rw [readLine]
  split
  · rfl
  · split <;> rfl

theorem nextOffset_readLine (line : Bytes) (lineStart recordNext : Nat) :
    (readLine json line lineStart recordNext).nextOffset = recordNext := by
  rw [readLine]
  split
  · rfl
  · split <;> rfl

theorem le_startOffset {offset : Nat} {lines : List Bytes} {entry : Entry Doc}
    (h : entry ∈ entriesOf json offset lines) : offset ≤ entry.startOffset := by
  induction lines generalizing offset with
  | nil => cases h
  | cons line lines ih =>
      rw [entriesOf] at h
      split at h
      · have := ih h
        omega
      · obtain rfl | h := List.mem_cons.mp h
        · rw [startOffset_readLine]
        · have := ih h
          omega

theorem nextOffset_le {offset : Nat} {lines : List Bytes} {entry : Entry Doc}
    (h : entry ∈ entriesOf json offset lines) : entry.nextOffset ≤ offset + (joined lineFeed lines).length := by
  induction lines generalizing offset with
  | nil => cases h
  | cons line lines ih =>
      rw [entriesOf] at h
      rw [length_joined_cons]
      split at h
      · have := ih h
        omega
      · obtain rfl | h := List.mem_cons.mp h
        · rw [nextOffset_readLine]
          omega
        · have := ih h
          omega

variable (json) in
theorem entriesOf_increasing (offset : Nat) (lines : List Bytes) :
    (entriesOf json offset lines).Pairwise fun e e' => e.startOffset < e'.startOffset := by
  induction lines generalizing offset with
  | nil => exact List.Pairwise.nil
  | cons line lines ih =>
      rw [entriesOf]
      split
      · exact ih _
      · refine List.pairwise_cons.mpr ⟨fun entry hentry => ?_, ih _⟩
        have := le_startOffset hentry
        rw [startOffset_readLine]
        omega

theorem entriesOf_eq_nil {offset : Nat} {lines : List Bytes} :
    entriesOf json offset lines = [] ↔ ∀ line ∈ lines, dropCarriageReturn line = [] := by
  induction lines generalizing offset with
  | nil => simp [entriesOf]
  | cons line lines ih =>
      rw [entriesOf]
      split
      · next hblank => simp [hblank, ih]
      · next hblank => simp [hblank]

/-- Some of the entries in front come from some of the lines in front. -/
theorem entriesOf_split {offset : Nat} {lines : List Bytes} {taken : List (Entry Doc)} {last : Entry Doc}
    {rest : List (Entry Doc)} (h : entriesOf json offset lines = taken ++ last :: rest) :
    ∃ front back, lines = front ++ back ∧ entriesOf json offset front = taken ++ [last] ∧
      entriesOf json (offset + (joined lineFeed front).length) back = rest ∧
      last.nextOffset = offset + (joined lineFeed front).length := by
  induction lines generalizing offset taken with
  | nil => simp [entriesOf] at h
  | cons line lines ih =>
      rw [entriesOf] at h
      split at h
      · next hblank =>
        obtain ⟨front, back, rfl, hfront, hback, hnext⟩ := ih h
        refine ⟨line :: front, back, rfl, ?_, ?_, ?_⟩
        · rw [entriesOf, if_pos hblank, hfront]
        · rw [length_joined_cons, ← Nat.add_assoc, hback]
        · rw [length_joined_cons, ← Nat.add_assoc, hnext]
      · next hblank =>
        cases taken with
        | nil =>
            obtain ⟨rfl, rfl⟩ := List.cons.inj h
            refine ⟨[line], lines, rfl, ?_, ?_, ?_⟩
            · simp [entriesOf, hblank]
            · simp [joined]
            · rw [nextOffset_readLine]
              simp [joined]
        | cons first taken =>
            rw [List.cons_append, List.cons.injEq] at h
            obtain ⟨hfirst, h⟩ := h
            obtain ⟨front, back, rfl, hfront, hback, hnext⟩ := ih h
            refine ⟨line :: front, back, rfl, ?_, ?_, ?_⟩
            · rw [entriesOf, if_neg hblank, hfront, hfirst, List.cons_append]
            · rw [length_joined_cons, ← Nat.add_assoc, hback]
            · rw [length_joined_cons, ← Nat.add_assoc, hnext]

/-! ## The reader -/

variable (json maxRecords) in
theorem readLoop_line {line : Bytes} (hline : lineFeed ∉ line) (rest : Bytes) (result : NdjsonReadResult Doc)
    (read : Bytes) (offset lineStart count : Nat) (hfit : read.length + line.length ≤ maxLineBytes) :
    readLoop json maxLineBytes maxRecords (line ++ rest) result read offset lineStart count =
      readLoop json maxLineBytes maxRecords rest result (read ++ line) (offset + line.length) lineStart count := by
  induction line generalizing read offset with
  | nil => simp
  | cons ch line ih =>
      rw [List.mem_cons, not_or] at hline
      rw [List.length_cons] at hfit
      have hroom : ¬ read.length ≥ maxLineBytes := by omega
      rw [List.cons_append, readLoop, if_pos (Ne.symm hline.1), if_neg hroom,
        ih hline.2 (read ++ [ch]) (offset + 1) (by simp; omega)]
      simp [Nat.add_assoc, Nat.add_comm 1]

/-- What the reader did: it went through some of the lines, and stopped because there were no more or enough. -/
structure Passed (json : Json Doc) (maxRecords offset : Nat) (tail : Bytes) (count : Nat)
    (before result : NdjsonReadResult Doc) (used left : List Bytes) : Prop where
  records : result.records = before.records ++ recordsOf (entriesOf json offset used)
  malformed : result.malformedRecords = before.malformedRecords ++ malformedOf (entriesOf json offset used)
  nextOffset : result.nextOffset = offset + (joined lineFeed used).length
  scanned : result.scannedRecords = count + (entriesOf json offset used).length
  truncated : result.sourceTruncated = before.sourceTruncated
  stopped : result.stoppedByRecordLimit = true ↔
    maxRecords ≠ 0 ∧ result.scannedRecords = maxRecords ∧ (left ≠ [] ∨ tail ≠ [])
  finished : result.stoppedByRecordLimit = false → left = []
  incomplete : result.incompleteTail = true → left = []
  started : used = [] → left = []

namespace NdjsonReadResult

variable (result : NdjsonReadResult Doc) (entry : Entry Doc)

theorem records_push : (result.push entry).records = result.records ++ recordsOf [entry] := by
  cases entry with
  | inl record => rfl
  | inr malformed => exact (List.append_nil _).symm

theorem malformedRecords_push :
    (result.push entry).malformedRecords = result.malformedRecords ++ malformedOf [entry] := by
  cases entry with
  | inl record => exact (List.append_nil _).symm
  | inr malformed => rfl

@[simp] theorem nextOffset_push : (result.push entry).nextOffset = result.nextOffset := by cases entry <;> rfl

@[simp] theorem scannedRecords_push : (result.push entry).scannedRecords = result.scannedRecords := by
  cases entry <;> rfl

@[simp] theorem sourceTruncated_push : (result.push entry).sourceTruncated = result.sourceTruncated := by
  cases entry <;> rfl

@[simp] theorem incompleteTail_push : (result.push entry).incompleteTail = result.incompleteTail := by
  cases entry <;> rfl

@[simp] theorem stoppedByRecordLimit_push :
    (result.push entry).stoppedByRecordLimit = result.stoppedByRecordLimit := by cases entry <;> rfl

end NdjsonReadResult

/-- One more line in front. -/
theorem Passed.cons {offset next count count' : Nat} {tail line : Bytes} {before before' result : NdjsonReadResult Doc}
    {used left : List Bytes} {entries : List (Entry Doc)}
    (h : Passed json maxRecords next tail count' before' result used left)
    (hnext : next = offset + (line.length + 1))
    (hentries : entriesOf json offset (line :: used) = entries ++ entriesOf json next used)
    (hrecords : before'.records = before.records ++ recordsOf entries)
    (hmalformed : before'.malformedRecords = before.malformedRecords ++ malformedOf entries)
    (hcount : count' = count + entries.length) (htruncated : before'.sourceTruncated = before.sourceTruncated) :
    Passed json maxRecords offset tail count before result (line :: used) left where
  records := by rw [h.records, hentries, hrecords, recordsOf_append, List.append_assoc]
  malformed := by rw [h.malformed, hentries, hmalformed, malformedOf_append, List.append_assoc]
  nextOffset := by rw [h.nextOffset, hnext, length_joined_cons, Nat.add_assoc]
  scanned := by rw [h.scanned, hentries, hcount, List.length_append, Nat.add_assoc]
  truncated := h.truncated.trans htruncated
  stopped := h.stopped
  finished := h.finished
  incomplete := h.incomplete
  started hused := by cases hused

theorem readLoop_passed {tail : Bytes} (htail : lineFeed ∉ tail) (htailFit : tail.length ≤ maxLineBytes)
    {lines : List Bytes} (hlines : ∀ line ∈ lines, lineFeed ∉ line) (hfit : ∀ line ∈ lines, line.length ≤ maxLineBytes)
    {before : NdjsonReadResult Doc} {offset count : Nat} (hoffset : before.nextOffset = offset)
    (hcount : before.scannedRecords = count) (hroom : maxRecords = 0 ∨ count < maxRecords)
    (hstopped : before.stoppedByRecordLimit = false) (hincomplete : before.incompleteTail = false) :
    ∃ result used left, lines = used ++ left ∧
      readLoop json maxLineBytes maxRecords (joined lineFeed lines ++ tail) before [] offset offset count = .ok result ∧
      Passed json maxRecords offset tail count before result used left := by
  induction lines generalizing before offset count with
  | nil =>
      refine ⟨{ before with incompleteTail := !tail.isEmpty }, [], [], rfl, ?_, ?_⟩
      · have hread := readLoop_line json maxRecords htail [] before [] offset offset count
          (by simpa using htailFit)
        rw [List.append_nil] at hread
        rw [joined_nil, List.nil_append, hread, readLoop]
        rfl
      · constructor <;> simp_all [entriesOf]
        omega
  | cons line lines ih =>
      have hline := hlines line List.mem_cons_self
      have hread := readLoop_line json maxRecords hline
        (lineFeed :: (joined lineFeed lines ++ tail)) before [] offset offset count
        (by simpa using hfit line List.mem_cons_self)
      rw [joined, List.append_assoc, List.cons_append, hread, readLoop, if_neg (not_not.mpr rfl), List.nil_append]
      have hlines' : ∀ l ∈ lines, lineFeed ∉ l := fun l hl => hlines l (List.mem_cons_of_mem _ hl)
      have hfit' : ∀ l ∈ lines, l.length ≤ maxLineBytes := fun l hl => hfit l (List.mem_cons_of_mem _ hl)
      by_cases hblank : dropCarriageReturn line = []
      · have hgo : ¬ (maxRecords ≠ 0 ∧ count ≥ maxRecords) := by omega
        obtain ⟨result, used, left, rfl, hresult, hpassed⟩ := @ih hlines' hfit'
          { before with nextOffset := offset + line.length + 1 } _ _ rfl hcount hroom hstopped hincomplete
        refine ⟨result, line :: used, left, rfl, ?_, hpassed.cons rfl (?_ : _ = [] ++ _) ?_ ?_ rfl rfl⟩
        · simpa [hblank, hgo] using hresult
        · rw [entriesOf, if_pos hblank]
          rfl
        · exact (List.append_nil _).symm
        · exact (List.append_nil _).symm
      · let before' := { before with
          nextOffset := offset + line.length + 1, scannedRecords := count + 1 }.push
            (readLine json (dropCarriageReturn line) offset (offset + line.length + 1))
        have hentries : ∀ used, entriesOf json offset (line :: used) =
            [readLine json (dropCarriageReturn line) offset (offset + line.length + 1)] ++
              entriesOf json (offset + line.length + 1) used := by
          intro used
          rw [entriesOf, if_neg hblank]
          rfl
        by_cases hlimit : maxRecords ≠ 0 ∧ count + 1 ≥ maxRecords
        · -- the line was the last one that may be read
          refine ⟨{ before' with stoppedByRecordLimit := !(joined lineFeed lines ++ tail).isEmpty }, [line], lines, rfl,
            ?_, ?_⟩
          · simp only [List.isEmpty_iff, hblank, if_false, if_pos hlimit]
            rfl
          · have hall : joined lineFeed lines ++ tail ≠ [] ↔ lines ≠ [] ∨ tail ≠ [] := by
              cases lines <;> simp [joined]
            constructor
            · rw [hentries]
              exact NdjsonReadResult.records_push _ _
            · rw [hentries]
              exact NdjsonReadResult.malformedRecords_push _ _
            · simp [before', joined, Nat.add_assoc]
            · simp [before', entriesOf, hblank]
            · simp [before']
            · have hreached : count + 1 = maxRecords := by omega
              simp only [Bool.not_eq_true', before', NdjsonReadResult.scannedRecords_push, hreached,
                List.isEmpty_eq_false_iff, hall]
              exact ⟨fun h => ⟨hlimit.1, trivial, h⟩, fun h => h.2.2⟩
            · intro hend
              by_contra hleft
              have hmore := hall.mpr (.inl hleft)
              simp only [Bool.not_eq_false', List.isEmpty_iff] at hend
              exact hmore hend
            · intro hend
              simp [before', hincomplete] at hend
            · intro hused
              cases hused
        · obtain ⟨result, used, left, rfl, hresult, hpassed⟩ := @ih hlines' hfit' before'
            (offset + line.length + 1) (count + 1) (by simp [before']) (by simp [before']) (by omega)
            (by simp [before', hstopped]) (by simp [before', hincomplete])
          refine ⟨result, line :: used, left, rfl, ?_, hpassed.cons rfl (hentries used) ?_ ?_ rfl ?_⟩
          · simp only [List.isEmpty_iff, hblank, if_false, if_neg hlimit]
            exact hresult
          · exact NdjsonReadResult.records_push _ _
          · exact NdjsonReadResult.malformedRecords_push _ _
          · simp [before']

/-! ## Offsets at the beginning of lines -/

/-- The end of a line, or the beginning of the log. -/
def Boundary (data : Bytes) (offset : Nat) : Prop :=
  offset ≤ data.length ∧ (data.take offset = [] ∨ (data.take offset).getLast? = some lineFeed)

/-- The lines of a log, the last one included that is not complete, are not too long. -/
def LinesFit (maxLineBytes : Nat) (data : Bytes) : Prop :=
  (∀ line ∈ complete lineFeed data, line.length ≤ maxLineBytes) ∧ (partialTail lineFeed data).length ≤ maxLineBytes

theorem boundary_zero (data : Bytes) : Boundary data 0 := ⟨Nat.zero_le _, .inl rfl⟩

/-- At a boundary the lines of the log are those before and those after it. -/
theorem Boundary.lines {data : Bytes} {offset : Nat} (h : Boundary data offset) :
    offset = (joined lineFeed (complete lineFeed (data.take offset))).length ∧
      complete lineFeed data =
        complete lineFeed (data.take offset) ++ complete lineFeed (data.drop offset) ∧
      partialTail lineFeed data = partialTail lineFeed (data.drop offset) := by
  have hfront := (longestComplete lineFeed (data.take offset)).unique
    ⟨List.prefix_rfl, h.2, fun _ hother _ => hother.length_le⟩
  have hdata : data = joined lineFeed (complete lineFeed (data.take offset) ++ complete lineFeed (data.drop offset)) ++
      partialTail lineFeed (data.drop offset) := by
    rw [joined_append, hfront, List.append_assoc, joined_complete, List.take_append_drop]
  have hlines : ∀ line ∈ complete lineFeed (data.take offset) ++ complete lineFeed (data.drop offset),
      lineFeed ∉ line := by
    intro line hline
    obtain hline | hline := List.mem_append.mp hline
    · exact (sep_not_mem lineFeed _).1 line hline
    · exact (sep_not_mem lineFeed _).1 line hline
  refine ⟨?_, ?_, ?_⟩
  · rw [hfront, List.length_take, Nat.min_eq_left h.1]
  · conv_lhs => rw [hdata]
    exact complete_joined hlines (sep_not_mem lineFeed _).2
  · conv_lhs => rw [hdata]
    exact partialTail_joined hlines (sep_not_mem lineFeed _).2

theorem LinesFit.drop {data : Bytes} {offset : Nat} (h : LinesFit maxLineBytes data) (hoffset : Boundary data offset) :
    LinesFit maxLineBytes (data.drop offset) := by
  obtain ⟨-, hlines, htail⟩ := hoffset.lines
  refine ⟨fun line hline => h.1 line ?_, htail ▸ h.2⟩
  rw [hlines]
  exact List.mem_append_right _ hline

/-- Behind some of the lines that begin at a boundary there is a boundary again. -/
theorem Boundary.add {data : Bytes} {offset : Nat} {front back : List Bytes} (h : Boundary data offset)
    (hlines : complete lineFeed (data.drop offset) = front ++ back) :
    Boundary data (offset + (joined lineFeed front).length) ∧
      complete lineFeed (data.drop (offset + (joined lineFeed front).length)) = back ∧
      partialTail lineFeed (data.drop (offset + (joined lineFeed front).length)) =
        partialTail lineFeed (data.drop offset) := by
  have hrest : data.drop offset = joined lineFeed front ++ (joined lineFeed back ++
      partialTail lineFeed (data.drop offset)) := by
    rw [← List.append_assoc, ← joined_append, ← hlines, joined_complete]
  have hdrop : data.drop (offset + (joined lineFeed front).length) =
      joined lineFeed back ++ partialTail lineFeed (data.drop offset) := by
    rw [← List.drop_drop, hrest, List.drop_left]
    rw [← hrest]
  have hback : ∀ line ∈ back, lineFeed ∉ line := fun line hline =>
    (sep_not_mem lineFeed (data.drop offset)).1 line (hlines ▸ List.mem_append_right _ hline)
  refine ⟨⟨?_, ?_⟩, ?_, ?_⟩
  · have hlength := congrArg List.length hrest
    rw [List.length_drop, List.length_append] at hlength
    have := h.1
    omega
  · have htake : data.take (offset + (joined lineFeed front).length) = data.take offset ++ joined lineFeed front := by
      rw [List.take_add, hrest, List.take_left]
    rw [htake]
    obtain hfront | hfront := joined_eq_nil_or_ends lineFeed front
    · rw [hfront, List.append_nil]
      exact h.2
    · right
      rw [List.getLast?_append, hfront]
      rfl
  · rw [hdrop]
    exact complete_joined hback (sep_not_mem lineFeed _).2
  · rw [hdrop]
    exact partialTail_joined hback (sep_not_mem lineFeed _).2

/-- Reading from a boundary. -/
theorem readNdjsonFromOffset_passed {data : Bytes} {offset : Nat} (hmax : 0 < maxLineBytes)
    (hoffset : Boundary data offset) (hfit : LinesFit maxLineBytes data) :
    ∃ result used left, complete lineFeed (data.drop offset) = used ++ left ∧
      readNdjsonFromOffset json (some data) offset maxLineBytes maxRecords = .ok result ∧
      Passed json maxRecords offset (partialTail lineFeed (data.drop offset)) 0
        { startOffset := offset, nextOffset := offset } result used left := by
  have hstart : ¬ offset > data.length := by have := hoffset.1; omega
  have hmax' : ¬ maxLineBytes = 0 := by omega
  simp only [readNdjsonFromOffset, if_neg hmax', hstart, decide_false, if_false]
  split
  · next hend =>
    have hdrop : data.drop offset = [] := List.drop_eq_nil_of_le hend.le
    refine ⟨{ startOffset := offset, nextOffset := offset }, [], [], by rw [hdrop]; rfl, rfl, ?_⟩
    constructor <;> simp [entriesOf, hdrop, partialTail, split]
  · have hfit' := hfit.drop hoffset
    have hnoSep := sep_not_mem lineFeed (data.drop offset)
    have hread := @readLoop_passed Doc json maxLineBytes maxRecords _ hnoSep.2 hfit'.2 _ hnoSep.1 hfit'.1
      { startOffset := offset, nextOffset := offset } offset 0 rfl rfl (Nat.eq_zero_or_pos _) rfl rfl
    rwa [joined_complete] at hread

/-! ## Windows -/

theorem perm_recordsOf_malformedOf (entries : List (Entry Doc)) :
    ((recordsOf entries).map Sum.inl ++ (malformedOf entries).map Sum.inr).Perm entries := by
  induction entries with
  | nil => exact List.Perm.nil
  | cons entry entries ih =>
      cases entry with
      | inl record => exact ih.cons _
      | inr malformed => exact List.perm_middle.trans (ih.cons _)

theorem startOffset_inj {offset : Nat} {lines : List Bytes} {entry entry' : Entry Doc}
    (h : entry ∈ entriesOf json offset lines) (h' : entry' ∈ entriesOf json offset lines)
    (heq : entry.startOffset = entry'.startOffset) : entry = entry' := by
  have hnodup : ((entriesOf json offset lines).map Entry.startOffset).Nodup :=
    List.pairwise_map.mpr ((entriesOf_increasing json offset lines).imp fun h => h.ne)
  exact List.inj_on_of_nodup_map hnodup h h' heq

/-- Sorted by their offsets, the records and the malformed records of a batch are its entries again. -/
theorem mergeSort_entriesOf (offset : Nat) (lines : List Bytes) :
    ((recordsOf (entriesOf json offset lines)).map Sum.inl ++
      (malformedOf (entriesOf json offset lines)).map Sum.inr).mergeSort
        (fun lhs rhs => decide (Entry.startOffset lhs ≤ Entry.startOffset rhs)) = entriesOf json offset lines := by
  have hperm := (List.mergeSort_perm _ fun lhs rhs : Entry Doc => decide (lhs.startOffset ≤ rhs.startOffset)).trans
    (perm_recordsOf_malformedOf (entriesOf json offset lines))
  have htrans : ∀ a b c : Entry Doc, decide (a.startOffset ≤ b.startOffset) = true →
      decide (b.startOffset ≤ c.startOffset) = true → decide (a.startOffset ≤ c.startOffset) = true := fun a b c h h' =>
    decide_eq_true ((of_decide_eq_true h).trans (of_decide_eq_true h'))
  have htotal : ∀ a b : Entry Doc,
      (decide (a.startOffset ≤ b.startOffset) || decide (b.startOffset ≤ a.startOffset)) = true := fun a b => by
    simp only [Bool.or_eq_true, decide_eq_true_eq]
    omega
  have hsorted := List.pairwise_mergeSort htrans htotal
    ((recordsOf (entriesOf json offset lines)).map Sum.inl ++ (malformedOf (entriesOf json offset lines)).map Sum.inr)
  have hincreasing := (entriesOf_increasing json offset lines).imp fun h => decide_eq_true h.le
  refine List.Perm.eq_of_pairwise (fun a b ha hb hab hba => ?_) hsorted hincreasing hperm
  have heq := Nat.le_antisymm (of_decide_eq_true hab) (of_decide_eq_true hba)
  exact startOffset_inj (hperm.mem_iff.mp ha) hb heq

/-- The loop takes some of the entries in front: all of them, or those before the first new record that is too many. -/
structure Taken (lastFileSeq : UInt64) (maxReturnedRecords : Nat) (before result : NdjsonSequenceReadResult Doc)
    (taken rest : List (Entry Doc)) : Prop where
  records : result.records = before.records ++ (recordsOf taken).filter fun r => decide (r.fileSeq > lastFileSeq)
  malformed : result.malformedRecords = before.malformedRecords ++ malformedOf taken
  nextOffset : result.nextOffset = (taken.getLast?.map Entry.nextOffset).getD before.nextOffset
  scanned : result.scannedRecords = before.scannedRecords
  hasMore : result.hasMore = true ↔ before.hasMore = true ∨ rest ≠ []
  full : rest ≠ [] → maxReturnedRecords ≠ 0 ∧ maxReturnedRecords ≤ result.records.length

theorem Taken.cons {lastFileSeq : UInt64} {maxReturnedRecords : Nat} {before before' result : NdjsonSequenceReadResult Doc}
    {entry : Entry Doc} {taken rest : List (Entry Doc)}
    (h : Taken lastFileSeq maxReturnedRecords before' result taken rest)
    (hrecords : before'.records =
      before.records ++ (recordsOf [entry]).filter fun r => decide (r.fileSeq > lastFileSeq))
    (hmalformed : before'.malformedRecords = before.malformedRecords ++ malformedOf [entry])
    (hnext : before'.nextOffset = entry.nextOffset) (hscanned : before'.scannedRecords = before.scannedRecords)
    (hmore : before'.hasMore = before.hasMore) :
    Taken lastFileSeq maxReturnedRecords before result (entry :: taken) rest where
  records := by rw [h.records, hrecords, recordsOf_cons entry taken, List.filter_append, List.append_assoc]
  malformed := by rw [h.malformed, hmalformed, malformedOf_cons entry taken, List.append_assoc]
  nextOffset := by
    rw [h.nextOffset, hnext, List.getLast?_cons]
    cases taken.getLast? <;> rfl
  scanned := h.scanned.trans hscanned
  hasMore := by rw [h.hasMore, hmore]
  full := h.full

theorem windowLoop_taken (lastFileSeq : UInt64) (maxReturnedRecords : Nat) (entries : List (Entry Doc))
    (before : NdjsonSequenceReadResult Doc) :
    ∃ taken rest, entries = taken ++ rest ∧ Taken lastFileSeq maxReturnedRecords before
      (windowLoop lastFileSeq maxReturnedRecords entries before) taken rest := by
  induction entries generalizing before with
  | nil => exact ⟨[], [], rfl, by constructor <;> simp [windowLoop]⟩
  | cons entry entries ih =>
      cases entry with
      | inr malformed =>
          obtain ⟨taken, rest, rfl, h⟩ := ih { before with
            malformedRecords := before.malformedRecords ++ [malformed], nextOffset := malformed.nextOffset }
          exact ⟨.inr malformed :: taken, rest, rfl, h.cons (by simp) rfl rfl rfl rfl⟩
      | inl record =>
          rw [windowLoop]
          by_cases hnew : record.fileSeq > lastFileSeq
          · rw [if_pos hnew]
            by_cases hfull : maxReturnedRecords ≠ 0 ∧ before.records.length ≥ maxReturnedRecords
            · rw [if_pos hfull]
              exact ⟨[], .inl record :: entries, rfl, by constructor <;> simp [hfull.1, hfull.2]⟩
            · rw [if_neg hfull]
              obtain ⟨taken, rest, rfl, h⟩ := ih { before with
                records := before.records ++ [record], nextOffset := record.nextOffset }
              exact ⟨.inl record :: taken, rest, rfl, h.cons (by simp [hnew]) (by simp) rfl rfl rfl⟩
          · rw [if_neg hnew]
            obtain ⟨taken, rest, rfl, h⟩ := ih { before with nextOffset := record.nextOffset }
            exact ⟨.inl record :: taken, rest, rfl, h.cons (by simp [hnew]) (by simp) rfl rfl rfl⟩

/-- What a window yields: the entries of some of the lines that begin at its offset, and an offset behind these lines. -/
structure Window (json : Json Doc) (data : Bytes) (offset : Nat) (lastFileSeq : UInt64) (maxScannedRecords : Nat)
    (result : NdjsonSequenceReadResult Doc) (front back : List Bytes) : Prop where
  lines : complete lineFeed (data.drop offset) = front ++ back
  records : result.records =
    (recordsOf (entriesOf json offset front)).filter fun r => decide (r.fileSeq > lastFileSeq)
  malformed : result.malformedRecords = malformedOf (entriesOf json offset front)
  nextOffset : result.nextOffset = offset + (joined lineFeed front).length
  started : front = [] → back = []
  /-- An unread line that is not blank is not passed over. -/
  unread : (∃ line ∈ back, dropCarriageReturn line ≠ []) → result.hasMore = true
  /-- Where no line is blank, there is more only where lines or, after as many as may be scanned, bytes are left. -/
  more : (∀ line ∈ complete lineFeed (data.drop offset), dropCarriageReturn line ≠ []) → result.hasMore = true →
    back ≠ [] ∨ result.scannedRecords = maxScannedRecords ∧ partialTail lineFeed (data.drop offset) ≠ []
  stopped : result.scannedRecords = maxScannedRecords ∧ partialTail lineFeed (data.drop offset) ≠ [] →
    result.hasMore = true

/-- The window in terms of its batch: the loop over the entries, with the end of the batch where it has none. -/
theorem readNdjsonSequenceWindow_eq {data : Bytes} {offset : Nat} (lastFileSeq : UInt64)
    {maxScannedRecords : Nat} (maxReturnedRecords : Nat) {batch : NdjsonReadResult Doc} {used : List Bytes}
    (hscan : 0 < maxScannedRecords)
    (hbatch : readNdjsonFromOffset json (some data) offset maxLineBytes maxScannedRecords = .ok batch)
    (hrecords : batch.records = recordsOf (entriesOf json offset used))
    (hmalformed : batch.malformedRecords = malformedOf (entriesOf json offset used))
    (htruncated : batch.sourceTruncated = false) {loop : NdjsonSequenceReadResult Doc}
    (hloop : loop = windowLoop lastFileSeq maxReturnedRecords (entriesOf json offset used)
      { scannedRecords := batch.scannedRecords, incompleteTail := batch.incompleteTail,
        hasMore := batch.stoppedByRecordLimit, nextOffset := offset }) :
    readNdjsonSequenceWindow json (some data) offset lastFileSeq maxLineBytes maxScannedRecords maxReturnedRecords =
      .ok { loop with
        hasMore := decide (loop.nextOffset < batch.nextOffset) || loop.hasMore
        nextOffset := if (entriesOf json offset used).isEmpty then batch.nextOffset else loop.nextOffset } := by
  have hscan' : ¬ maxScannedRecords = 0 := by omega
  rw [readNdjsonSequenceWindow, if_neg hscan', hbatch]
  simp only [hrecords, hmalformed, mergeSort_entriesOf, htruncated, Bool.false_eq_true, and_false, if_false, ← hloop]
  by_cases hless : loop.nextOffset < batch.nextOffset
  · simp only [hless, if_true, decide_true, Bool.true_or]
    split <;> rfl
  · simp only [hless, if_false, decide_false, Bool.false_or]
    split <;> rfl

variable (json) in
theorem readNdjsonSequenceWindow_window {data : Bytes} {offset : Nat} (lastFileSeq : UInt64)
    {maxScannedRecords : Nat} (maxReturnedRecords : Nat) (hmax : 0 < maxLineBytes) (hscan : 0 < maxScannedRecords)
    (hoffset : Boundary data offset) (hfit : LinesFit maxLineBytes data) :
    ∃ result front back,
      readNdjsonSequenceWindow json (some data) offset lastFileSeq maxLineBytes maxScannedRecords maxReturnedRecords =
        .ok result ∧
      Window json data offset lastFileSeq maxScannedRecords result front back := by
  obtain ⟨batch, used, left, hlines, hbatch, hpassed⟩ :=
    @readNdjsonFromOffset_passed Doc json maxLineBytes maxScannedRecords data offset hmax hoffset hfit
  have hscanned : batch.scannedRecords = (entriesOf json offset used).length := by
    rw [hpassed.scanned, Nat.zero_add]
  obtain ⟨taken, rest, hentries, htaken⟩ := windowLoop_taken lastFileSeq maxReturnedRecords (entriesOf json offset used)
    { scannedRecords := batch.scannedRecords, incompleteTail := batch.incompleteTail,
      hasMore := batch.stoppedByRecordLimit, nextOffset := offset }
  have heq := readNdjsonSequenceWindow_eq lastFileSeq maxReturnedRecords hscan hbatch hpassed.records hpassed.malformed
    hpassed.truncated rfl
  generalize windowLoop lastFileSeq maxReturnedRecords (entriesOf json offset used) _ = loop at htaken heq
  by_cases hempty : entriesOf json offset used = []
  · -- only blank lines, or none: nothing was taken, and the window ends where the batch does
    obtain ⟨rfl, rfl⟩ := List.append_eq_nil_iff.mp (hentries.symm.trans hempty)
    have hnotStopped : ¬ batch.stoppedByRecordLimit = true := by
      intro hstopped
      have := (hpassed.stopped.mp hstopped).2.1
      rw [hscanned, hempty, List.length_nil] at this
      omega
    obtain rfl := hpassed.finished (Bool.eq_false_of_not_eq_true hnotStopped)
    have hnotMax : ¬ loop.scannedRecords = maxScannedRecords := by
      have hnone : loop.scannedRecords = 0 := htaken.scanned.trans (hscanned.trans (by rw [hempty]; rfl))
      omega
    refine ⟨_, used, [], heq, ?_⟩
    constructor
    · exact hlines
    · rw [hempty]
      exact htaken.records
    · rw [hempty]
      exact htaken.malformed
    · rw [hempty]
      exact hpassed.nextOffset
    · exact fun _ => rfl
    · rintro ⟨line, hline, -⟩
      cases hline
    · intro hnoBlank hmore
      have hused : used = [] := List.eq_nil_iff_forall_not_mem.mpr fun line hline =>
        hnoBlank line (hlines ▸ List.mem_append_left _ hline) (entriesOf_eq_nil.mp hempty line hline)
      have hnext := hpassed.nextOffset
      rw [hused, joined_nil, List.length_nil, Nat.add_zero] at hnext
      have hloopNext : loop.nextOffset = offset := htaken.nextOffset
      simp only [hnext, hloopNext, lt_irrefl, decide_false, Bool.false_or] at hmore
      obtain hstopped | hrest := htaken.hasMore.mp hmore
      · exact absurd hstopped hnotStopped
      · exact absurd rfl hrest
    · exact fun h => absurd h.1 hnotMax
  · have htakenNe : taken ≠ [] := by
      rintro rfl
      have hrest : rest ≠ [] := fun h => hempty (by rw [hentries, h]; rfl)
      have hfull := htaken.full hrest
      rw [htaken.records] at hfull
      simp at hfull
    obtain ⟨init, last, rfl⟩ : ∃ init last, taken = init ++ [last] :=
      ⟨_, _, (List.dropLast_append_getLast htakenNe).symm⟩
    rw [List.append_assoc] at hentries
    obtain ⟨front, back, rfl, hfront, hback, hnext⟩ := entriesOf_split hentries
    have hloopNext : loop.nextOffset = offset + (joined lineFeed front).length := by
      rw [htaken.nextOffset, List.getLast?_concat]
      exact hnext
    have hbatchNext : batch.nextOffset = loop.nextOffset + (joined lineFeed back).length := by
      rw [hpassed.nextOffset, hloopNext, joined_append, List.length_append, Nat.add_assoc]
    refine ⟨_, front, back ++ left, heq, ?_⟩
    constructor
    · rw [hlines, List.append_assoc]
    · rw [hfront]
      exact htaken.records
    · rw [hfront]
      exact htaken.malformed
    · rw [List.isEmpty_eq_false_iff.mpr hempty]
      exact hloopNext
    · rintro rfl
      simp [entriesOf] at hfront
    · rintro ⟨line, hline, hnotBlank⟩
      rw [Bool.or_eq_true, htaken.hasMore]
      right
      obtain hline | hline := List.mem_append.mp hline
      · right
        rintro rfl
        exact hnotBlank (entriesOf_eq_nil.mp hback line hline)
      · left
        by_contra hnotStopped
        have hleft := hpassed.finished (Bool.eq_false_of_not_eq_true hnotStopped)
        rw [hleft] at hline
        cases hline
    · intro _ hmore
      rw [Bool.or_eq_true, decide_eq_true_eq, htaken.hasMore] at hmore
      obtain hless | hstopped | hrest := hmore
      · left
        rintro hnil
        obtain ⟨rfl, -⟩ := List.append_eq_nil_iff.mp hnil
        simp [hbatchNext] at hless
      · obtain ⟨-, hmaximal, hleft | htail⟩ := hpassed.stopped.mp hstopped
        · exact .inl fun hnil => hleft (List.append_eq_nil_iff.mp hnil).2
        · exact .inr ⟨htaken.scanned.trans hmaximal, htail⟩
      · left
        rintro hnil
        obtain ⟨rfl, -⟩ := List.append_eq_nil_iff.mp hnil
        exact hrest hback.symm
    · rintro ⟨hmaximal, htail⟩
      rw [Bool.or_eq_true, htaken.hasMore]
      exact .inr (.inl (hpassed.stopped.mpr ⟨by omega, htaken.scanned.symm.trans hmaximal, .inr htail⟩))

namespace Window

variable {data : Bytes} {offset maxScannedRecords : Nat} {lastFileSeq : UInt64} {result : NdjsonSequenceReadResult Doc}
  {front back : List Bytes}

theorem length_eq (h : Window json data offset lastFileSeq maxScannedRecords result front back)
    (hoffset : Boundary data offset) :
    data.length = result.nextOffset + (joined lineFeed back).length + (partialTail lineFeed data).length := by
  have hrest := congrArg List.length (joined_complete lineFeed (data.drop offset))
  rw [h.lines, joined_append, ← hoffset.lines.2.2, List.length_append, List.length_append, List.length_drop] at hrest
  rw [h.nextOffset]
  have := hoffset.1
  omega

theorem unread_iff (h : Window json data offset lastFileSeq maxScannedRecords result front back)
    (hoffset : Boundary data offset) : complete lineFeed (data.drop result.nextOffset) = back := by
  rw [h.nextOffset]
  exact (hoffset.add h.lines).2.1

/-- Nothing of the incomplete last line is returned. -/
theorem record_le (h : Window json data offset lastFileSeq maxScannedRecords result front back)
    (hoffset : Boundary data offset) {record : NdjsonRecord Doc} (hrecord : record ∈ result.records) :
    record.nextOffset + (partialTail lineFeed data).length ≤ data.length := by
  rw [h.records] at hrecord
  obtain ⟨entry, hentry, hget⟩ := List.mem_filterMap.mp (List.mem_of_mem_filter hrecord)
  obtain rfl : entry = .inl record := Sum.getLeft?_eq_some_iff.mp hget
  have hle : record.nextOffset ≤ _ := nextOffset_le hentry
  rw [← h.nextOffset] at hle
  have := h.length_eq hoffset
  omega

theorem malformed_le (h : Window json data offset lastFileSeq maxScannedRecords result front back)
    (hoffset : Boundary data offset) {malformed : NdjsonMalformedRecord}
    (hmalformed : malformed ∈ result.malformedRecords) :
    malformed.nextOffset + (partialTail lineFeed data).length ≤ data.length := by
  rw [h.malformed] at hmalformed
  obtain ⟨entry, hentry, hget⟩ := List.mem_filterMap.mp hmalformed
  obtain rfl : entry = .inr malformed := Sum.getRight?_eq_some_iff.mp hget
  have hle : malformed.nextOffset ≤ _ := nextOffset_le hentry
  rw [← h.nextOffset] at hle
  have := h.length_eq hoffset
  omega

theorem hasMore_iff (h : Window json data offset lastFileSeq maxScannedRecords result front back)
    (hoffset : Boundary data offset)
    (hnoBlank : ∀ line ∈ complete lineFeed (data.drop offset), dropCarriageReturn line ≠ []) :
    result.hasMore = true ↔ (∃ line ∈ back, dropCarriageReturn line ≠ []) ∨
      result.scannedRecords = maxScannedRecords ∧ result.nextOffset < data.length := by
  have hlength := h.length_eq hoffset
  have hunread : back ≠ [] → ∃ line ∈ back, dropCarriageReturn line ≠ [] := by
    intro hback
    obtain ⟨line, hline⟩ := List.exists_mem_of_ne_nil back hback
    exact ⟨line, hline, hnoBlank line (h.lines ▸ List.mem_append_right _ hline)⟩
  have htail : partialTail lineFeed (data.drop offset) = partialTail lineFeed data := hoffset.lines.2.2.symm
  constructor
  · intro hmore
    obtain hback | ⟨hscanned, hrest⟩ := h.more hnoBlank hmore
    · exact .inl (hunread hback)
    · rw [htail] at hrest
      have := List.length_pos_iff.mpr hrest
      exact .inr ⟨hscanned, by omega⟩
  · rintro (hmore | ⟨hscanned, hless⟩)
    · exact h.unread hmore
    · by_cases hback : back = []
      · rw [hback, joined_nil, List.length_nil] at hlength
        refine h.stopped ⟨hscanned, ?_⟩
        rw [htail, ← List.length_pos_iff]
        omega
      · exact h.unread (hunread hback)

end Window

end OptionX.Bridges.MetaTraderFileProtocol
