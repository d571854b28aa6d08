import OptionX.Bridges.Lemmas.FileBridgeMoves
import OptionX.Bridges.Lemmas.NdjsonAppend

/-!
# Command logs whose lines are numbered

A log is its complete lines, each with its sequence number; places in it are counted in lines.
-/

namespace OptionX.Bridges.MetaTraderFile

open Lib.Lines
open MetaTraderFileProtocol
open TradingView (Text text)

variable {F : Type} {library : Library F} {maxLineBytes : Nat} {lines lines' : List Bytes} {seqs seqs' : List UInt64}
  {file : Option Bytes} {data : Bytes}

/-- A line that is read as a record with the number. -/
structure Line (library : Library F) (maxLineBytes : Nat) (line : Bytes) (fileSeq : UInt64) : Prop where
  length : line.length ≤ maxLineBytes
  noCarriageReturn : carriageReturn ∉ line
  notEmpty : line ≠ []
  parse : ∃ document, library.parse line = .ok document ∧ document.member? (text "file_seq") = some (.unsigned fileSeq)
  positive : fileSeq ≠ 0

/-- The offset behind the first lines. -/
def position (lines : List Bytes) (i : Nat) : Nat := (joined lineFeed (lines.take i)).length

@[simp] theorem position_zero : position lines 0 = 0 := rfl

theorem position_append {i : Nat} (h : i ≤ lines.length) : position (lines ++ lines') i = position lines i := by
  rw [position, position, List.take_append_of_le_length h]

theorem position_le {i j : Nat} (h : i ≤ j) : position lines i ≤ position lines j := by
  have htake : lines.take j = lines.take i ++ (lines.drop i).take (j - i) := by
    rw [← List.take_add, Nat.add_sub_cancel' h]
  rw [position, position, htake, joined_append, List.length_append]
  exact Nat.le_add_right _ _

theorem Line.read {line : Bytes} {fileSeq : UInt64} (h : Line library maxLineBytes line fileSeq)
    (lineStart recordNext : Nat) :
    ∃ document, readLine library.log (dropCarriageReturn line) lineStart recordNext =
      .inl ⟨document, lineStart, recordNext, fileSeq⟩ := by
  obtain ⟨document, hparse, hseq⟩ := h.parse
  have hparse' : library.log.parse line = .ok document := hparse
  have hseq' : library.log.findFileSeq document = some (.unsigned fileSeq) := by
    simp only [Library.log, hseq, Option.map_some, seqValue]
  refine ⟨document, ?_⟩
  rw [dropCarriageReturn_of_not_mem h.noCarriageReturn, readLine, hparse']
  simp only [parseRequiredFileSeq, hseq', if_neg h.positive]
  rfl

theorem recordsOf_map_inl {Doc : Type} (records : List (NdjsonRecord Doc)) : recordsOf (records.map Sum.inl) = records := by
  induction records with
  | nil => rfl
  | cons record records ih => rw [List.map_cons, recordsOf_cons, ih]; rfl

theorem malformedOf_map_inl {Doc : Type} (records : List (NdjsonRecord Doc)) : malformedOf (records.map Sum.inl) = [] := by
  induction records with
  | nil => rfl
  | cons record records ih => rw [List.map_cons, malformedOf_cons, ih]; rfl

/-- The lines are read as records with their numbers, each with the offset behind its line. -/
theorem entriesOf_lines (h : List.Forall₂ (Line library maxLineBytes) lines seqs) (offset : Nat) :
    ∃ records : List (NdjsonRecord (TradingView.Json F)), entriesOf library.log offset lines = records.map Sum.inl ∧
      records.map (·.fileSeq) = seqs ∧
        ∀ j record, records[j]? = some record → record.nextOffset = offset + position lines (j + 1) := by
  induction h generalizing offset with
  | nil => exact ⟨[], rfl, rfl, nofun⟩
  | @cons line fileSeq lines seqs hline hlines ih =>
      obtain ⟨records, hentries, hseqs, hnext⟩ := ih (offset + (line.length + 1))
      obtain ⟨document, hread⟩ := hline.read offset (offset + (line.length + 1))
      refine ⟨⟨document, offset, offset + (line.length + 1), fileSeq⟩ :: records, ?_, by rw [List.map_cons, hseqs], ?_⟩
      · have hline' : dropCarriageReturn line ≠ [] := by
          rw [dropCarriageReturn_of_not_mem hline.noCarriageReturn]
          exact hline.notEmpty
        rw [entriesOf, if_neg hline', hread, hentries]
        rfl
      · have hposition : ∀ i, position (line :: lines) (i + 1) = line.length + 1 + position lines i := fun i => by
          rw [position, List.take_succ_cons, length_joined_cons]
          rfl
        intro j record hrecord
        rw [hposition]
        cases j with
        | zero =>
            cases hrecord
            rw [position_zero, Nat.add_zero]
        | succ j =>
            rw [hnext j record hrecord, Nat.add_assoc]

/-- What a log holds: the numbers of its lines grow, and what is left of a last line is not too long. -/
structure LogHolds (library : Library F) (maxLineBytes : Nat) (data : Bytes) (seqs : List UInt64) : Prop where
  lines : List.Forall₂ (Line library maxLineBytes) (complete lineFeed data) seqs
  tail : (partialTail lineFeed data).length ≤ maxLineBytes
  sorted : seqs.Pairwise (· < ·)

theorem length_of_lines (h : List.Forall₂ (Line library maxLineBytes) lines seqs) :
    ∀ line ∈ lines, line.length ≤ maxLineBytes := by
  induction h with
  | nil => exact nofun
  | cons hline hlines ih =>
      intro line hmem
      rcases List.mem_cons.mp hmem with rfl | hmem
      · exact hline.length
      · exact ih line hmem

/-- Each number is the one of a line. -/
theorem exists_line (h : List.Forall₂ (Line library maxLineBytes) lines seqs) {fileSeq : UInt64} (hmem : fileSeq ∈ seqs) :
    ∃ line ∈ lines, Line library maxLineBytes line fileSeq := by
  induction h with
  | nil => cases hmem
  | @cons line head lines seqs hline hlines ih =>
      rcases List.mem_cons.mp hmem with rfl | hmem
      · exact ⟨line, List.mem_cons_self, hline⟩
      · obtain ⟨other, hother, hreads⟩ := ih hmem
        exact ⟨other, List.mem_cons_of_mem _ hother, hreads⟩

theorem LogHolds.fits (h : LogHolds library maxLineBytes data seqs) : LinesFit maxLineBytes data :=
  ⟨length_of_lines h.lines, h.tail⟩

theorem LogHolds.length (h : LogHolds library maxLineBytes data seqs) : (complete lineFeed data).length = seqs.length :=
  h.lines.length_eq

/-- Behind the first lines the log goes on with the others. -/
theorem boundary_position (data : Bytes) (i : Nat) :
    Boundary data (position (complete lineFeed data) i) ∧
      complete lineFeed (data.drop (position (complete lineFeed data) i)) = (complete lineFeed data).drop i := by
  have hlines : complete lineFeed (data.drop 0) = (complete lineFeed data).take i ++ (complete lineFeed data).drop i := by
    rw [List.drop_zero, List.take_append_drop]
  obtain ⟨hboundary, hback, -⟩ := (boundary_zero data).add hlines
  rw [Nat.zero_add] at hboundary hback
  exact ⟨hboundary, hback⟩

/-- A window read behind some lines: the new ones among the lines up to another place, and this place. -/
theorem window_position (h : LogHolds library maxLineBytes data seqs) {i : Nat} (hi : i ≤ seqs.length)
    (lastFileSeq : UInt64) {maxScannedRecords : Nat} (maxReturnedRecords : Nat) (hmax : 0 < maxLineBytes)
    (hscan : 0 < maxScannedRecords) :
    ∃ result n, readNdjsonSequenceWindow library.log (some data) (position (complete lineFeed data) i) lastFileSeq
        maxLineBytes maxScannedRecords maxReturnedRecords = .ok result ∧
      i ≤ n ∧ n ≤ seqs.length ∧ result.nextOffset = position (complete lineFeed data) n ∧
      result.records.map (·.fileSeq) = ((seqs.take n).drop i).filter (fun fileSeq => decide (lastFileSeq < fileSeq)) ∧
      ∀ record ∈ result.records, ∃ j < n, seqs[j]? = some record.fileSeq ∧
        record.nextOffset = position (complete lineFeed data) (j + 1) := by
  obtain ⟨hboundary, hdrop⟩ := boundary_position data i
  obtain ⟨result, front, back, hresult, hwindow⟩ := readNdjsonSequenceWindow_window library.log lastFileSeq
    maxReturnedRecords hmax hscan hboundary h.fits
  have hlines := hwindow.lines
  rw [hdrop] at hlines
  have htake : (complete lineFeed data).take (i + front.length) = (complete lineFeed data).take i ++ front := by
    rw [List.take_add, hlines, List.take_left]
  have hlength : i + front.length ≤ seqs.length := by
    have := congrArg List.length hlines
    rw [List.length_drop, List.length_append, h.length] at this
    omega
  have hfront : List.Forall₂ (Line library maxLineBytes) front ((seqs.take (i + front.length)).drop i) := by
    have hpart := List.forall₂_drop i (List.forall₂_take (i + front.length) h.lines)
    rwa [htake, List.drop_left' ?_] at hpart
    rw [List.length_take, h.length, Nat.min_eq_left hi]
  obtain ⟨records, hentries, hseqs, hnext⟩ := entriesOf_lines hfront (position (complete lineFeed data) i)
  refine ⟨result, i + front.length, hresult, Nat.le_add_right _ _, hlength, ?_, ?_, ?_⟩
  · rw [hwindow.nextOffset, position, position, htake, joined_append, List.length_append]
  · rw [hwindow.records, hentries, recordsOf_map_inl, ← hseqs, List.filter_map]
    rfl
  · intro record hrecord
    rw [hwindow.records, hentries, recordsOf_map_inl] at hrecord
    obtain ⟨j, hj⟩ := List.mem_iff_getElem?.mp (List.mem_of_mem_filter hrecord)
    have hseq : ((seqs.take (i + front.length)).drop i)[j]? = some record.fileSeq := by
      rw [← hseqs, List.getElem?_map, hj]
      rfl
    have hless : i + j < i + front.length := by
      have hsome := (List.getElem?_eq_some_iff.mp hj).1
      rw [← List.length_map (fun record => record.fileSeq), hseqs, ← hfront.length_eq] at hsome
      omega
    refine ⟨i + j, hless, ?_, ?_⟩
    · rwa [List.getElem?_drop, List.getElem?_take_of_lt hless] at hseq
    · have hsplit : (complete lineFeed data).take (i + j + 1) = (complete lineFeed data).take i ++ front.take (j + 1) := by
        rw [Nat.add_assoc, List.take_add, hlines, List.take_append_of_le_length (by omega)]
      rw [hnext j record hj, position, position, position, hsplit, joined_append, List.length_append]

/-! ## Places -/

/-- An offset behind lines whose numbers are not above the bound. -/
def ValidAt (lines : List Bytes) (seqs : List UInt64) (offset : Nat) (bound : UInt64) : Prop :=
  ∃ i ≤ seqs.length, offset = position lines i ∧ ∀ fileSeq ∈ seqs.take i, fileSeq ≤ bound

theorem validAt_zero (lines : List Bytes) (seqs : List UInt64) (bound : UInt64) : ValidAt lines seqs 0 bound :=
  ⟨0, Nat.zero_le _, rfl, nofun⟩

variable {offset offset' : Nat} {bound bound' : UInt64}

theorem ValidAt.mono (h : ValidAt lines seqs offset bound) (hle : bound ≤ bound') : ValidAt lines seqs offset bound' := by
  obtain ⟨i, hi, hoffset, hbound⟩ := h
  exact ⟨i, hi, hoffset, fun fileSeq hmem => (hbound fileSeq hmem).trans hle⟩

theorem ValidAt.max (h : ValidAt lines seqs offset bound) (h' : ValidAt lines seqs offset' bound) :
    ValidAt lines seqs (max offset offset') bound := by
  rcases Nat.le_total offset offset' with hle | hle
  · rwa [Nat.max_eq_right hle]
  · rwa [Nat.max_eq_left hle]

theorem ValidAt.append (h : ValidAt lines seqs offset bound) (hlength : lines.length = seqs.length) :
    ValidAt (lines ++ lines') (seqs ++ seqs') offset bound := by
  obtain ⟨i, hi, rfl, hbound⟩ := h
  refine ⟨i, hi.trans (by simp), (position_append (hlength ▸ hi)).symm, fun fileSeq hmem => hbound fileSeq ?_⟩
  rwa [List.take_append_of_le_length hi] at hmem

/-- If the beginning of the log is still the one that the reader knows, its offset is behind lines that were handled. -/
def Cursor (lines : List Bytes) (seqs : List UInt64) (runtime : Runtime F) : Prop :=
  ∀ first, seqs.head? = some first → first ≤ runtime.lastCommandFileSeq →
    (runtime.commandFirstFileSeq = none ∨ runtime.commandFirstFileSeq = some first) →
    ValidAt lines seqs runtime.commandScanOffset runtime.lastCommandFileSeq

theorem cursor_of_validAt {runtime : Runtime F}
    (h : ValidAt lines seqs runtime.commandScanOffset runtime.lastCommandFileSeq) : Cursor lines seqs runtime :=
  fun _ _ _ _ => h

/-! ## Reading -/

/-- The beginning of the log is looked at. -/
theorem commandLogPrefixState_eq {config : MetaTraderFileBridgeConfig}
    (h : LogHolds library config.maxLineBytes data seqs) (hmax : 0 < config.maxLineBytes) :
    ∃ found, commandLogPrefixState config library (some data) = .ok found ∧ found.firstFileSeq = seqs.head? ∧
      (found.sawCompleteLine = true → seqs ≠ []) := by
  obtain ⟨first, used, left, hlines, hfirst, hpassed⟩ := @readNdjsonFromOffset_passed _ library.log config.maxLineBytes 1
    data 0 hmax (boundary_zero data) h.fits
  rw [List.drop_zero] at hlines
  have hused : List.Forall₂ (Line library config.maxLineBytes) used (seqs.take used.length) := by
    have hpart := List.forall₂_take used.length h.lines
    rwa [hlines, List.take_left] at hpart
  obtain ⟨records, hentries, hseqs, -⟩ := entriesOf_lines hused 0
  have hrecords : first.records = records := by
    rw [hpassed.records, hentries, recordsOf_map_inl]
    rfl
  have hmalformed : first.malformedRecords = [] := by
    rw [hpassed.malformed, hentries, malformedOf_map_inl]
    rfl
  have hread : commandLogPrefixState config library (some data) = .ok
      { sawCompleteLine := !records.isEmpty
        scannedRecords := first.scannedRecords
        firstFileSeq := records.head?.map (·.fileSeq) } := by
    unfold commandLogPrefixState
    simp [hfirst, hrecords, hmalformed, bind, Except.bind, pure, Except.pure]
  refine ⟨_, hread, ?_, ?_⟩
  · rw [← List.head?_map, hseqs]
    cases used with
    | nil =>
        rw [hpassed.started rfl] at hlines
        have hlength := h.length
        rw [hlines] at hlength
        rw [List.length_eq_zero_iff.mp hlength.symm]
        rfl
    | cons line used =>
        cases seqs <;> rfl
  · intro hsaw hnil
    rw [hnil, List.take_nil] at hseqs
    rw [List.map_eq_nil_iff.mp hseqs] at hsaw
    cases hsaw

/-- A log without any complete line yields nothing from an offset inside of it. -/
theorem window_blank (h : LogHolds library maxLineBytes data []) (hoffset : offset ≤ data.length) (lastFileSeq : UInt64)
    {maxScannedRecords : Nat} (maxReturnedRecords : Nat) (hmax : 0 < maxLineBytes) (hscan : 0 < maxScannedRecords) :
    ∃ result, readNdjsonSequenceWindow library.log (some data) offset lastFileSeq maxLineBytes maxScannedRecords
        maxReturnedRecords = .ok result ∧ result.records = [] ∧ result.nextOffset = offset := by
  have hdata : data = partialTail lineFeed data := by
    have hjoined := joined_complete lineFeed data
    rw [List.forall₂_nil_right_iff.mp h.lines] at hjoined
    exact hjoined.symm
  have htail : lineFeed ∉ data.drop offset := by
    intro hmem
    have hmem' := List.mem_of_mem_drop hmem
    rw [hdata] at hmem'
    exact (sep_not_mem lineFeed data).2 hmem'
  have hfit : (data.drop offset).length ≤ maxLineBytes := by
    have := h.tail
    rw [← hdata] at this
    rw [List.length_drop]
    omega
  have hbatch : ∃ batch, readNdjsonFromOffset library.log (some data) offset maxLineBytes maxScannedRecords = .ok batch ∧
      batch.records = [] ∧ batch.malformedRecords = [] ∧ batch.sourceTruncated = false ∧ batch.nextOffset = offset := by
    have hstart : ¬ offset > data.length := by omega
    have hmax' : ¬ maxLineBytes = 0 := by omega
    simp only [readNdjsonFromOffset, if_neg hmax', hstart, decide_false, if_false]
    split
    · exact ⟨_, rfl, rfl, rfl, rfl, rfl⟩
    · obtain ⟨batch, used, left, hlines, hread, hpassed⟩ := @readLoop_passed _ library.log maxLineBytes maxScannedRecords _
        htail hfit [] (List.forall_mem_nil _) (List.forall_mem_nil _) { startOffset := offset, nextOffset := offset }
        offset 0 rfl rfl (Nat.eq_zero_or_pos _) rfl rfl
      obtain ⟨rfl, -⟩ := List.append_eq_nil_iff.mp hlines.symm
      exact ⟨batch, hread, hpassed.records, hpassed.malformed, hpassed.truncated, hpassed.nextOffset⟩
  obtain ⟨batch, hread, hrecords, hmalformed, htruncated, hnext⟩ := hbatch
  have hwindow := @readNdjsonSequenceWindow_eq _ library.log maxLineBytes data offset lastFileSeq maxScannedRecords
    maxReturnedRecords batch [] hscan hread hrecords hmalformed htruncated _ rfl
  exact ⟨_, hwindow, rfl, hnext⟩

/-- What a window has of the log: nothing, or the new ones among the lines between the offset and another place. -/
inductive Found (lines : List Bytes) (seqs : List UInt64) (runtime : Runtime F)
    (window : NdjsonSequenceReadResult (TradingView.Json F)) : Prop where
  | blank (hrecords : window.records = []) (hnext : window.nextOffset ≤ runtime.commandScanOffset)
  | between {i n : Nat} (hin : i ≤ n) (hn : n ≤ seqs.length) (hoffset : runtime.commandScanOffset = position lines i)
      (hold : ∀ fileSeq ∈ seqs.take i, fileSeq ≤ runtime.lastCommandFileSeq)
      (hnext : window.nextOffset = position lines n)
      (hseqs : window.records.map (·.fileSeq) =
        ((seqs.take n).drop i).filter fun fileSeq => decide (runtime.lastCommandFileSeq < fileSeq))
      (hplaces : ∀ record ∈ window.records, ∃ j < n, seqs[j]? = some record.fileSeq ∧
        record.nextOffset = position lines (j + 1))

/-- The runtime and the window that a reading of the log gives. -/
structure ReadOk (lines : List Bytes) (seqs : List UInt64) (runtime : Runtime F)
    (out : Runtime F × Except String (NdjsonSequenceReadResult (TradingView.Json F))) : Prop where
  last : out.1.lastCommandFileSeq = runtime.lastCommandFileSeq
  cursor : Cursor lines seqs out.1
  found : ∀ window, out.2 = .ok window → Found lines seqs out.1 window

variable {config : MetaTraderFileBridgeConfig} {runtime : Runtime F} {scanBudget : Nat}

theorem readWindow_last (config : MetaTraderFileBridgeConfig) (library : Library F) (file : Option Bytes)
    (scanBudget : Nat) (runtime : Runtime F) :
    (readWindow config library file scanBudget runtime).1.lastCommandFileSeq = runtime.lastCommandFileSeq ∧
    (readWindow config library file scanBudget runtime).1.commandScanOffset = runtime.commandScanOffset := by
  unfold readWindow
  split <;> exact ⟨rfl, rfl⟩

theorem readWindow_ok {window : NdjsonSequenceReadResult (TradingView.Json F)} (h : readNdjsonSequenceWindow library.log file
    runtime.commandScanOffset runtime.lastCommandFileSeq config.maxLineBytes scanBudget config.maxReturnedRecordsPerPoll =
      .ok window) : (readWindow config library file scanBudget runtime).2 = .ok window := by
  unfold readWindow
  rw [h]

theorem readWindow_readOk (h : LogHolds library config.maxLineBytes data seqs) (hmax : 0 < config.maxLineBytes)
    (hscan : 0 < scanBudget)
    (hvalid : ValidAt (complete lineFeed data) seqs runtime.commandScanOffset runtime.lastCommandFileSeq) :
    ReadOk (complete lineFeed data) seqs runtime (readWindow config library (some data) scanBudget runtime) := by
  obtain ⟨hlast, hoffset⟩ := readWindow_last config library (some data) scanBudget runtime
  obtain ⟨i, hi, hposition, hold⟩ := hvalid
  refine ⟨hlast, cursor_of_validAt ?_, fun window hwindow => ?_⟩
  · rw [hlast, hoffset]
    exact ⟨i, hi, hposition, hold⟩
  · obtain ⟨result, n, hread, hin, hn, hnext, hseqs, hplaces⟩ := window_position h hi runtime.lastCommandFileSeq
      config.maxReturnedRecordsPerPoll hmax hscan
    rw [← hposition] at hread
    rw [readWindow_ok hread] at hwindow
    cases hwindow
    refine .between hin hn (hoffset.trans hposition) ?_ hnext ?_ hplaces
    · rw [hlast]
      exact hold
    · rw [hlast]
      exact hseqs

/-- The offset is given up unless the log begins as it did. -/
theorem checkPrefix_validAt {found : CommandLogPrefixState} {first : UInt64} {seqs : List UInt64}
    (hcursor : Cursor lines (first :: seqs) runtime) (hfirst : found.firstFileSeq = some first) :
    (checkPrefix runtime found).1.lastCommandFileSeq = runtime.lastCommandFileSeq ∧
      ValidAt lines (first :: seqs) (checkPrefix runtime found).1.commandScanOffset
        (checkPrefix runtime found).1.lastCommandFileSeq := by
  rw [checkPrefix, hfirst]
  refine ⟨rfl, ?_⟩
  cases hback : (runtime.commandFirstFileSeq.any (first ≠ ·)) || decide (runtime.lastCommandFileSeq < first) with
  | true =>
      simp only [hback, if_true]
      exact validAt_zero _ _ _
  | false =>
      simp only [hback, Bool.false_eq_true, if_false]
      rw [Bool.or_eq_false_iff, decide_eq_false_iff_not, not_lt] at hback
      refine hcursor first rfl hback.2 ?_
      cases hknown : runtime.commandFirstFileSeq with
      | none => exact .inl rfl
      | some known =>
          rw [hknown] at hback
          simp only [Option.any_some, decide_eq_false_iff_not, not_not] at hback
          exact .inr (congrArg some hback.1.symm)

/-- The reader finds its place in any log whose lines are numbered, also when it is another log than before. -/
theorem readCommandsWindow_readOk {disk : Disk F}
    (h : LogHolds library config.maxLineBytes (disk.commandsLog.getD []) seqs) (hmax : 0 < config.maxLineBytes)
    (hscan : 0 < config.maxScannedRecordsPerPoll)
    (hcursor : Cursor (complete lineFeed (disk.commandsLog.getD [])) seqs runtime) :
    ReadOk (complete lineFeed (disk.commandsLog.getD [])) seqs runtime
      (readCommandsWindow config library disk runtime) := by
  unfold readCommandsWindow
  cases hlog : disk.commandsLog with
  | none =>
      refine ⟨rfl, cursor_of_validAt (validAt_zero _ _ _), fun window hwindow => ?_⟩
      cases hwindow
      exact .blank rfl (Nat.le_refl 0)
  | some data =>
      rw [hlog] at h hcursor
      simp only [Option.getD_some] at h hcursor ⊢
      split
      · exact ⟨rfl, hcursor, nofun⟩
      · generalize hstart : (if data.length < runtime.commandScanOffset then resetScan runtime else runtime) = start
        have hlast : start.lastCommandFileSeq = runtime.lastCommandFileSeq := by
          rw [← hstart]
          split <;> rfl
        have hstartCursor : Cursor (complete lineFeed data) seqs start := by
          rw [← hstart]
          split
          · exact cursor_of_validAt (validAt_zero _ _ _)
          · exact hcursor
        have hle : start.commandScanOffset ≤ data.length := by
          rw [← hstart]
          split
          · exact Nat.zero_le _
          · next hnotLess => exact Nat.le_of_not_lt hnotLess
        suffices hread : ReadOk (complete lineFeed data) seqs start _ from
          ⟨hread.last.trans hlast, hread.cursor, hread.found⟩
        split
        · next hzero =>
          refine readWindow_readOk h hmax hscan ?_
          rw [hzero]
          exact validAt_zero _ _ _
        · obtain ⟨found, hfound, hfirst, hsaw⟩ := commandLogPrefixState_eq h hmax
          rw [hfound]
          have hbudget : ∀ back : Bool, 0 <
              if found.scannedRecords ≠ 0 ∧ (!back) = true ∧ 1 < config.maxScannedRecordsPerPoll
              then config.maxScannedRecordsPerPoll - min found.scannedRecords (config.maxScannedRecordsPerPoll - 1)
              else config.maxScannedRecordsPerPoll := by
            intro back
            split <;> omega
          cases seqs with
          | nil =>
              have hsame : checkPrefix start found = (start, false) := by
                rw [checkPrefix, hfirst]
                exact if_neg fun hback => hsaw hback.1 rfl
              obtain ⟨result, hread, hrecords, hnext⟩ := window_blank h hle start.lastCommandFileSeq
                config.maxReturnedRecordsPerPoll hmax (hbudget false)
              simp only [hsame]
              refine ⟨(readWindow_last ..).1, nofun, fun window hwindow => ?_⟩
              rw [readWindow_ok hread] at hwindow
              cases hwindow
              exact .blank hrecords (by rw [(readWindow_last ..).2, hnext])
          | cons first seqs =>
              obtain ⟨hplaceLast, hplace⟩ := checkPrefix_validAt hstartCursor hfirst
              have hread := readWindow_readOk h hmax (hbudget (checkPrefix start found).2) hplace
              exact ⟨hread.last.trans hplaceLast, hread.cursor, hread.found⟩

end OptionX.Bridges.MetaTraderFile
